/-
  Labels: texts such as `@repository//path/to/package:target` that name a target.  A target that is
  called like its package, or a package that is the repository itself, need not be spelled out.  Labels
  have an order of their own, in which points and colons divide a text into parts.

  Shortening and order follow the printer, whose code does not belong to the calculator.
-/
namespace Reckoner.Source

/-! ## Short forms -/

/-- The characters of a repository's name. -/
def isRepositoryChar (c : Char) : Bool := c.isAlphanum || c = '_'

/-- The repository of a label, empty if it has none, and what follows the two slashes. -/
def splitRepository? : List Char → Option (List Char × List Char)
  | '/' :: '/' :: rest => some ([], rest)
  | '@' :: r =>
    let repository := r.takeWhile isRepositoryChar
    match r.dropWhile isRepositoryChar with
    | '/' :: '/' :: rest => if repository.isEmpty then none else some (repository, rest)
    | _ => none
  | _ => none

/-- What follows the last slash of a path.  A slash at the very front divides nothing, and neither does
    one behind a line end. -/
def lastPart : List Char → List Char
  | [] => []
  | c :: r =>
    let line := r.takeWhile (· ≠ '\n')
    if c ≠ '\n' && line.contains '/' then
      r.drop (line.length - (line.reverse.takeWhile (· ≠ '/')).length)
    else c :: r

/-- A label without a target that goes without saying. -/
def shortLabel (label : List Char) : List Char :=
  match splitRepository? label with
  | none => label
  | some (repository, path) =>
    let last := lastPart path
    let package := last.takeWhile (· ≠ ':')
    let target := (last.dropWhile (· ≠ ':')).drop 1
    if target.isEmpty || target.contains ':' then label
    else if package = target then label.take (label.length - (target.length + 1))
    else if package.isEmpty && repository = target then '@' :: repository
    else label

/-- Whether two texts can be one label. -/
def joinable (front back : List Char) : Bool :=
  front.take 2 = ['/', '/'] && !front.contains ' ' && !back.contains ' '

/-! ## Order -/

/-- Where a label stands as a whole: files, targets of the same package, of the same repository, and of
    others. -/
def labelPhase : List Char → Nat
  | ':' :: _ => 1
  | '/' :: '/' :: _ => 2
  | '@' :: _ => 3
  | _ => 0

/-- The parts of a text between points and colons. -/
def labelParts : List Char → List (List Char)
  | [] => [[]]
  | c :: r =>
    if c = '.' || c = ':' then [] :: labelParts r
    else match labelParts r with
      | [] => [[c]]
      | p :: ps => (c :: p) :: ps

/-- Characters by their code points. -/
def charOrder (a b : Char) : Ordering := compareOfLessAndEq a.toNat b.toNat

/-- The order of labels: by phase, then part by part, then as texts. -/
def labelOrder (a b : List Char) : Ordering :=
  (compareOfLessAndEq (labelPhase a) (labelPhase b)).then
    ((List.compareLex (List.compareLex charOrder) (labelParts a) (labelParts b)).then
      (List.compareLex charOrder a b))

end Reckoner.Source
