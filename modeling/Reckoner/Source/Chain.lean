/-
  Reading on demand.  A `Feed` holds what is left of a text and hands out one line at a time.  A
  `LineReader` counts the lines of one document, passes over those that hold no instruction and reads
  the next one that does.  A `Chain` asks its first reader and drops it when it has nothing left.  Each
  call goes just as far as its answer needs; `none` is the answer at the end.

  A line that is too long stops its feed for good, so its reader is never exhausted and the chain never
  comes to the readers behind it.
-/
import Reckoner.Source.Reader

namespace Reckoner.Source

/-- What is left of a text. -/
structure Feed where
  rest : List Char
  /-- Whether a line was too long. -/
  stopped : Bool := false
  deriving DecidableEq, Repr

/-- Hand out the next line, without its end.

    A line that is too long stops the feed, and every later call finds it stopped.  This is what line
    scanners promise: that no scan succeeds after one that failed.  The scanner that the calculator uses
    is laxer when it is asked again all the same, and hands out once what of the long line its buffer
    held; readers do not ask again after that complaint, which ends a run. -/
def Feed.next (f : Feed) : Option (List Char) × Feed :=
  if f.stopped || f.rest.isEmpty then (none, f)
  else
    let line := f.rest.takeWhile (· ≠ '\n')
    if longestLine < byteLength line then (none, { f with stopped := true })
    else (some (dropReturn line), { f with rest := (f.rest.dropWhile (· ≠ '\n')).drop 1 })

theorem Feed.rest_lt_of_next {f f' : Feed} {line : List Char} (h : f.next = (some line, f')) :
    f'.rest.length < f.rest.length := by
  unfold next at h
  split at h
  · cases h
  · rename_i hrest
    simp only at h
    split at h
    · cases h
    · cases h
      have hle := length_dropWhile_le (· ≠ '\n') f.rest
      have hpos : 0 < f.rest.length := by
        rw [Bool.or_eq_true, List.isEmpty_iff, not_or] at hrest
        exact List.length_pos_iff.2 hrest.2
      rw [List.length_drop]
      omega

/-- What comes of a line: an instruction, or why there is none. -/
abbrev Reading := Except ReadError (Instruction Expr)

/-- A document that is read line by line. -/
structure LineReader where
  file : String
  feed : Feed
  /-- How many lines have been handed out. -/
  line : Nat := 0
  deriving DecidableEq, Repr

/-- Read the next line that holds an instruction. -/
def LineReader.next (r : LineReader) : Option Reading × LineReader :=
  match _h : r.feed.next with
  | (none, feed) => (if feed.stopped then some (.error .tooLong) else none, { r with feed := feed })
  | (some line, feed) =>
    let r' : LineReader := ⟨r.file, feed, r.line + 1⟩
    if skippable line then r'.next else (some (Entry.read ⟨r'.file, r'.line, line⟩), r')
termination_by r.feed.rest.length
decreasing_by exact Feed.rest_lt_of_next _h

/-- Documents that are read one after the other. -/
structure Chain where
  readers : List LineReader
  deriving DecidableEq, Repr

/-- Read the next line that holds an instruction, in whichever document it is. -/
def Chain.next (c : Chain) : Option Reading × Chain := go c.readers
where
  /-- Ask the readers in turn. -/
  go : List LineReader → Option Reading × Chain
    | [] => (none, ⟨[]⟩)
    | r :: later =>
      match r.next with
      | (none, _) => go later
      | (some reading, r') => (some reading, ⟨r' :: later⟩)

/-- The chain of documents from which nothing has been read. -/
def Chain.of (ds : List Document) : Chain := ⟨ds.map fun d => ⟨d.name, ⟨d.text.toList, false⟩, 0⟩⟩

end Reckoner.Source
