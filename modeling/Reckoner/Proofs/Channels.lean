/-
  What channels change.  A session that takes notes answers as one that takes none: the notes go to the
  log and nothing reads the log.  There is one exception.  The note on the parsing writes the phrase out
  again, and a phrase without a layout (an integer of `2 ^ 63` or more, or a sequence of bytes) stops
  the session that listens to the parsing, wherever the reading comes to it.

  A run depends on its source up to the first error only (`seen`, `course_seen`, `specializeAll_seen`).
  So if the reading comes to no such phrase, what is heard up to the first error is the same for all
  channels (`seen_hear`); and if it comes to one, that phrase is the first error, and the results before
  it are the first of those that come without the channels (`results_hear`).
-/
import Reckoner.Proofs.Faults

namespace Reckoner

open Source

/-! ## The part of a source that is seen

  A run and a specialization both stop at the first error, so they do not tell apart sources that agree
  so far. -/

/-- A source up to its first error. -/
def seen {ε α : Type} : Readings ε α → Readings ε α
  | [] => []
  | .error c :: _ => [.error c]
  | .ok i :: rest => .ok i :: seen rest

section Seen

variable {ε : Type}

/-- The course of a run is decided by what is seen. -/
theorem course_seen (ns : Namespace Expr) (source : Readings ε Expr) (reads : Nat) :
    Results.course id ((Results.mk ns (seen source) reads .running).drain perform) =
      Results.course id ((Results.mk ns source reads .running).drain perform) := by
  induction source generalizing ns reads with
  | nil => rfl
  | cons item rest ih =>
    cases item with
    | error c =>
      -- the source is seen up to here
      have hact : (perform ns (.error c)).1 = .error (.unread c) := rfl
      rw [seen, drain_error hact, drain_error hact]
      rfl
    | ok i =>
      rw [seen]
      -- the run stops, goes on silently, or goes on with a result
      cases ho : (perform (ε := ε) ns (.ok i)).1 with
      | error c =>
        rw [drain_error ho, drain_error ho]
        rfl
      | ok r? =>
        cases r? with
        | none => rw [drain_silent ho, drain_silent ho, ih]
        | some r =>
          rw [drain_result ho, drain_result ho, Results.course_cons, Results.course_cons, ih]

/-- Specializing is decided by what is seen. -/
theorem specializeAll_seen (ns : Namespace Expr) (source : Readings ε Expr) :
    specializeAll ns (seen source) = specializeAll ns source := by
  induction source generalizing ns with
  | nil => rfl
  | cons item rest ih =>
    cases item with
    | error c => rfl
    | ok i => cases i <;> simp only [seen, specializeAll, ih]

end Seen

/-! ## Phrases without a layout

  The layout gives up on integers that do not fit in a machine word, and on sequences of bytes.  An
  expression that has been read has no sequences, and its integers are those of the phrase, so their
  size decides. -/

/-- The first phrase without a layout that the reading of lines comes to. -/
def Source.unwritten? : List (Except ReadError Entry) → Option LayoutFault
  | [] => none
  | item :: rest =>
    match entryFault? item, item >>= Entry.read with
    | some f, _ => some f
    | none, .ok _ => unwritten? rest
    | none, .error _ => none

/-- Whether the integers of an expression fit in 64 bits, whatever their sign. -/
def Expr.isNarrow : Expr → Bool
  | integer n => n.natAbs < 9223372036854775808
  | rational n d => n.natAbs < 9223372036854775808 && d.natAbs < 9223372036854775808
  | reference _ => true
  | binary _ l r => l.isNarrow && r.isNarrow

/-- Whether the integers of an instruction fit in 64 bits. -/
def Instruction.isNarrow : Instruction Expr → Bool
  | assign _ e => e.isNarrow
  | evaluate e => e.isNarrow
  | missing => true

/-- A sign does not change the size of an integer. -/
theorem natAbs_signedBy (negative : Bool) (n : Int) : (signedBy negative n).natAbs = n.natAbs := by
  cases negative
  · rfl
  · exact Int.natAbs_neg n

/-- An integer is read from its digits as it was scanned. -/
theorem integerOf_eq {raw : String} {n : Nat} {z : Int} (h : integerOf raw n = .ok z) : z = n := by
  unfold integerOf at h
  split at h
  · exact (Except.ok.inj h).symm
  · cases h

/-- Only large integers have no layout. -/
theorem fault?_int {raw : String} {n : Nat} (h : n < 9223372036854775808) :
    (Phrase.int raw n).fault? = none := by
  rw [Phrase.fault?, if_neg (by omega)]

/-- A part of a ratio that fits in 64 bits has a layout. -/
theorem fault?_of_ratioPart {x : Phrase} {z : Int} (h : ratioPart x = .ok z)
    (hz : z.natAbs < 9223372036854775808) :
    x.fault? = none := by
  unfold ratioPart at h
  split at h
  · rename_i raw n
    cases integerOf_eq h
    exact fault?_int hz
  · rename_i raw n
    obtain ⟨m, hm, rfl⟩ := exists_of_map_ok h
    cases integerOf_eq hm
    rw [natAbs_signedBy] at hz
    rw [Phrase.fault?]
    exact fault?_int hz
  · rename_i raw n
    cases integerOf_eq h
    rw [Phrase.fault?]
    exact fault?_int hz
  · cases h

/-- A literal whose integers fit in 64 bits has a layout. -/
theorem fault?_of_literalOf {negative : Bool} {x : Phrase} {e : Expr} (h : literalOf negative x = .ok e)
    (he : e.isNarrow = true) : x.fault? = none := by
  unfold literalOf at h
  split at h
  · rename_i raw n
    obtain ⟨m, hm, rfl⟩ := exists_of_map_ok h
    cases integerOf_eq hm
    rw [Expr.isNarrow, natAbs_signedBy, decide_eq_true_eq] at he
    exact fault?_int he
  · rfl
  · cases h
  · cases h
  · -- a ratio: both of its parts have to fit
    rename_i oneLine num den
    obtain ⟨n, hn, h⟩ := exists_of_bind_ok h
    obtain ⟨d, hd, h⟩ := exists_of_bind_ok h
    cases h
    rw [Expr.isNarrow, natAbs_signedBy, Bool.and_eq_true, decide_eq_true_eq, decide_eq_true_eq] at he
    simp only [Phrase.fault?, faultAmong?, fault?_of_ratioPart hn he.1, fault?_of_ratioPart hd he.2,
      Option.or]
  · cases h
  · cases h

/-- An expression whose integers fit in 64 bits is read from phrases with a layout. -/
theorem fault?_of_exprOf {x : Phrase} {e : Expr} (h : exprOf x = .ok e) (he : e.isNarrow = true) :
    x.fault? = none := by
  fun_induction exprOf x generalizing e with
  | case1 s => rfl
  | case2 x ih => exact ih h he
  | case3 sign x hsign =>
    -- a sign belongs to the literal behind it
    rw [Phrase.fault?]
    exact fault?_of_literalOf h he
  | case4 => cases h
  | case5 => cases h
  | case6 op broken x y o ho ihx ihy =>
    -- an operation has a layout if its operands have
    obtain ⟨l, hl, h⟩ := exists_of_bind_ok h
    obtain ⟨r, hr, h⟩ := exists_of_bind_ok h
    cases h
    obtain ⟨hnl, hnr⟩ := (Bool.and_eq_true _ _).mp he
    simp only [Phrase.fault?, ihx hl hnl, ihy hr hnr, Option.or]
  | case7 => exact fault?_of_literalOf h he
  | case8 => exact fault?_of_literalOf h he
  | case9 => exact fault?_of_literalOf h he
  | case10 => exact fault?_of_literalOf h he
  | case11 => exact fault?_of_literalOf h he
  | case12 => cases h

/-- So a source has a layout if the integers of its expression fit. -/
theorem layoutFault?_of_readExpr {src : List Char} {e : Expr} (h : readExpr src = .ok e)
    (he : e.isNarrow = true) :
    layoutFault? src = none := by
  obtain ⟨x, hx, h⟩ := exists_of_bind_ok h
  rw [layoutFault?, hx]
  unfold expressionOf at h
  split at h
  · rename_i hexpr
    cases h
    exact fault?_of_exprOf hexpr he
  · cases h

/-- A line whose integers fit in 64 bits has a layout. -/
theorem entryFault?_of_read {item : Except ReadError Entry} {i : Instruction Expr}
    (h : (item >>= Entry.read) = .ok i) (hi : i.isNarrow = true) : entryFault? item = none := by
  cases item with
  | error c => rfl
  | ok e =>
    have hline := readLine_of_read h
    rw [entryFault?]
    unfold readLine at hline
    split at hline
    · cases hline
    · rename_i x src hhead
      obtain ⟨body, hbody, rfl⟩ := exists_of_map_ok hline
      rw [hhead]
      exact layoutFault?_of_readExpr hbody hi
    · rename_i src hhead
      obtain ⟨body, hbody, rfl⟩ := exists_of_map_ok hline
      rw [hhead]
      exact layoutFault?_of_readExpr hbody hi
    · cases hline

/-- Documents whose integers all fit hold no phrase without a layout. -/
theorem unwritten?_of_narrow {source : List (Except ReadError Entry)}
    (h : ∀ item ∈ source, ∃ i, (item >>= Entry.read) = .ok i ∧ i.isNarrow = true) :
    unwritten? source = none := by
  induction source with
  | nil => rfl
  | cons item rest ih =>
    obtain ⟨⟨i, hread, hi⟩, hrest⟩ := List.forall_mem_cons.1 h
    rw [unwritten?, entryFault?_of_read hread hi, hread]
    exact ih hrest

/-! ## What is heard

  Line by line, what is heard with the parsing on is compared with what is heard without channels.  They
  agree until the first phrase without a layout. -/

section Hear

variable {cs : List Channel} {source : List (Except ReadError Entry)} {f : LayoutFault}

/-- How the reading of a source goes on behind a line without a fault. -/
theorem unwritten?_of_clear {item : Except ReadError Entry} (hclear : entryFault? item = none)
    {i : Instruction Expr} (hread : (item >>= Entry.read) = .ok i) :
    unwritten? (item :: source) = unwritten? source := by
  rw [unwritten?, hclear, hread]

/-- If none is come to, the first line has none. -/
theorem entryFault?_of_unwritten? {item : Except ReadError Entry}
    (h : unwritten? (item :: source) = none) :
    entryFault? item = none := by
  cases hf : entryFault? item with
  | none => rfl
  | some f =>
    rw [unwritten?, hf] at h
    cases h

/-- What is seen of a source is the same for all channels, if no phrase without a layout is come to. -/
theorem seen_hear (h : .parsing ∈ cs → unwritten? source = none) :
    seen (source.map (hear cs)) = seen (source.map (hear [])) := by
  induction source with
  | nil => rfl
  | cons item rest ih =>
    have hclear : .parsing ∈ cs → entryFault? item = none := fun hcs => entryFault?_of_unwritten? (h hcs)
    have hquiet : .parsing ∈ ([] : List Channel) → entryFault? item = none := by rintro ⟨⟩
    rw [List.map_cons, List.map_cons, hear_of_clear hclear, hear_of_clear hquiet]
    cases hread : item >>= Entry.read with
    | error c => rfl
    | ok i =>
      -- the line is heard by both, and the reading goes on
      refine congrArg (Except.ok i :: ·) (ih fun hcs => ?_)
      rw [← unwritten?_of_clear (hclear hcs) hread]
      exact h hcs

/-- Without channels nothing is heard of layouts. -/
theorem ending_quiet_ne (source : List (Except ReadError Entry)) (f : LayoutFault) :
    ending (source.map (hear [])) ≠ .stopped (.unread (.unwritable f)) := by
  intro h
  rcases ending_cases (source.map (hear [])) with hend | ⟨u, hstop, hu⟩
  · rw [hend] at h
    cases h
  · rw [hstop] at h
    cases h
    -- the error would be that of a line, and those are about reading
    obtain ⟨item, _, hitem⟩ := List.mem_map.1 hu
    rw [hear_of_clear (by rintro ⟨⟩)] at hitem
    cases hread : item >>= Entry.read with
    | error c =>
      rw [hread] at hitem
      cases hitem
    | ok i =>
      rw [hread] at hitem
      cases hitem

/-- The first phrase without a layout that is come to is what stops one who listens to the parsing. -/
theorem ending_loud (hcs : .parsing ∈ cs) (hf : unwritten? source = some f) :
    ending (source.map (hear cs)) = .stopped (.unread (.unwritable f)) := by
  induction source with
  | nil => cases hf
  | cons item rest ih =>
    rw [List.map_cons]
    cases hfault : entryFault? item with
    | some g =>
      -- this is the first one, and stops the reading
      rw [unwritten?, hfault] at hf
      cases hf
      rw [hear_of_fault hcs hfault, ending]
    | none =>
      rw [hear_of_clear fun _ => hfault]
      rw [unwritten?, hfault] at hf
      cases hread : item >>= Entry.read with
      | error c =>
        rw [hread] at hf
        cases hf
      | ok i =>
        rw [hread] at hf
        exact ih hf

/-- The results that one gets who listens to the parsing are the first of those that come without
    channels. -/
theorem results_hear (hcs : .parsing ∈ cs) (source : List (Except ReadError Entry)) (ns : Namespace Expr)
    (reads : Nat) :
    (Results.course id ((Results.mk ns (source.map (hear cs)) reads .running).drain perform)).results <+:
      (Results.course id
        ((Results.mk ns (source.map (hear [])) reads .running).drain perform)).results := by
  induction source generalizing ns reads with
  | nil => exact List.prefix_refl _
  | cons item rest ih =>
    rw [List.map_cons, List.map_cons]
    cases hfault : entryFault? item with
    | some f =>
      -- the one who listens gets no more results
      have hact : (perform ns (hear cs item)).1 = .error (.unread (.unwritable f)) := by
        rw [hear_of_fault hcs hfault, perform]
      rw [drain_error hact]
      exact List.nil_prefix
    | none =>
      -- both hear the line, and do the same with it
      have hloud : hear cs item = (item >>= Entry.read).mapError .unread := hear_of_clear fun _ => hfault
      have hquiet : hear [] item = (item >>= Entry.read).mapError .unread := hear_of_clear fun _ => hfault
      rw [hloud, hquiet]
      cases ho : (perform ns ((item >>= Entry.read).mapError Trouble.unread)).1 with
      | error c =>
        rw [drain_error ho]
        exact List.nil_prefix
      | ok r? =>
        cases r? with
        | none =>
          rw [drain_silent ho, drain_silent ho]
          exact ih _ _
        | some r =>
          rw [drain_result ho, drain_result ho, Results.course_cons, Results.course_cons]
          exact (List.prefix_cons_inj _).2 (ih _ _)

end Hear

/-! ## What a session answers

  By the comparison of sessions with plain runs, all that is left is to compare what is heard. -/

namespace Engine

/-- The same engine with other channels on. -/
def listening (en : Engine) (cs : List Channel) : Engine := { en with channels := cs }

/-- What can be seen of the run of documents: results, namespaces, and how it ended. -/
def ranOn (en : Engine) (ds : List Document) : Course (Namespace Expr) Trouble :=
  Results.course (fun s => s.bindings.exprs) (en.run fetch (ds.flatMap Document.entries))

/-- What is left of documents, or why nothing is. -/
def leftOf (en : Engine) (ds : List Document) : Except (Stop Trouble) (List (Instruction Expr)) :=
  (en.residual fetch (ds.flatMap Document.entries)).1.map (List.map (Instruction.map Node.expr))

variable {en : Engine} {cs : List Channel} {ds : List Document}

/-- What is known of runs and residual programs over what is heard. -/
theorem faultless_listening (en : Engine) (cs : List Channel) (ds : List Document) :
    Faultless ((ds.flatMap Document.entries).map (hear cs)) (Troubles cs ds) ((en.listening cs).ranOn ds)
      ((en.listening cs).leftOf ds) := by
  rw [ranOn, leftOf, course_run, residual_eq]
  exact faultless_heard cs ds

/-- Sessions that come to no phrase without a layout answer alike. -/
theorem answers_of_clear (h : .parsing ∈ cs → unwritten? (ds.flatMap Document.entries) = none) :
    (en.listening cs).ranOn ds = (en.listening []).ranOn ds ∧
      (en.listening cs).leftOf ds = (en.listening []).leftOf ds := by
  have hseen := seen_hear h
  constructor
  · have hcourse := course_seen ∅ ((ds.flatMap Document.entries).map (hear cs)) 0
    rw [hseen, course_seen] at hcourse
    rw [ranOn, ranOn, course_run, course_run]
    exact hcourse.symm
  · have hleft := specializeAll_seen ∅ ((ds.flatMap Document.entries).map (hear cs))
    rw [hseen, specializeAll_seen] at hleft
    rw [leftOf, leftOf, residual_eq, residual_eq]
    exact congrArg (Except.map prune) hleft.symm

/-- A session that listens to the parsing is stopped by the first phrase without a layout that it comes
    to. -/
theorem status_of_unwritten? (en : Engine) (hcs : .parsing ∈ cs) {f : LayoutFault}
    (hf : unwritten? (ds.flatMap Document.entries) = some f) :
    ((en.listening cs).ranOn ds).status = .stopped (.unread (.unwritable f)) :=
  (faultless_listening en cs ds).ends.trans (ending_loud hcs hf)

end Engine

/-- **What channels change.**  With any channels on, documents are run as without them, and the same is
    left of them, exactly if the session does not listen to the parsing or comes to no phrase without a
    layout.  Where it listens and comes to one, that stops the run and the residual program alike, and
    the results before it are the first of those without channels.  Documents that can be read to their
    end, with integers that fit in 64 bits, hold no such phrase. -/
theorem answers_with_channels (en : Engine) (cs : List Channel) (ds : List Document) :
    ((en.listening cs).ranOn ds = (en.listening []).ranOn ds ↔
        (.parsing ∈ cs → unwritten? (ds.flatMap Document.entries) = none)) ∧
      ((en.listening cs).leftOf ds = (en.listening []).leftOf ds ↔
        (.parsing ∈ cs → unwritten? (ds.flatMap Document.entries) = none)) ∧
      (∀ f, .parsing ∈ cs → unwritten? (ds.flatMap Document.entries) = some f →
        ((en.listening cs).ranOn ds).status = .stopped (.unread (.unwritable f)) ∧
          (en.listening cs).leftOf ds = .error (.unread (.unwritable f)) ∧
          ((en.listening cs).ranOn ds).results <+: ((en.listening []).ranOn ds).results) ∧
      ((∀ item ∈ ds.flatMap Document.entries, ∃ i, (item >>= Entry.read) = .ok i ∧ i.isNarrow = true) →
        unwritten? (ds.flatMap Document.entries) = none) := by
  have hquiet := Engine.faultless_listening en [] ds
  have hloud := Engine.faultless_listening en cs ds
  refine ⟨⟨?_, fun h => (Engine.answers_of_clear h).1⟩,
    ⟨?_, fun h => (Engine.answers_of_clear h).2⟩, ?_, ?_⟩
  · -- a phrase without a layout stops the one run and never the other
    intro hran hcs
    cases hf : unwritten? (ds.flatMap Document.entries) with
    | none => rfl
    | some f =>
      have hstatus := en.status_of_unwritten? hcs hf
      rw [hran, hquiet.ends] at hstatus
      exact absurd hstatus (ending_quiet_ne _ f)
  · intro hleft hcs
    cases hf : unwritten? (ds.flatMap Document.entries) with
    | none => rfl
    | some f =>
      have hstop := (hloud.residual _).2 (en.status_of_unwritten? hcs hf)
      rw [hleft, hquiet.residual, hquiet.ends] at hstop
      exact absurd hstop (ending_quiet_ne _ f)
  · intro f hcs hf
    have hstatus := en.status_of_unwritten? hcs hf
    refine ⟨hstatus, (hloud.residual _).2 hstatus, ?_⟩
    rw [Engine.ranOn, Engine.ranOn, Engine.course_run, Engine.course_run]
    exact results_hear hcs _ _ _
  · exact unwritten?_of_narrow

/-- Two evaluations, the second of an integer of `2 ^ 63`. -/
def wide : Document := ⟨"p", ">>> x\n>>> 9223372036854775808\n"⟩

/-- An integer one smaller. -/
def narrow : Document := ⟨"p", ">>> x - 9223372036854775807\n"⟩

/-- The reading of `wide` comes to its integer. -/
theorem unwritten?_wide : unwritten? ([wide].flatMap Document.entries) = some .wideInteger := by
  decide +kernel

/-- A session that listens to the parsing of `wide` is stopped, with the first result only; one that
    listens to the parsing of `narrow` answers as one that does not. -/
theorem answers_with_channels_wide :
    unwritten? ([wide].flatMap Document.entries) = some .wideInteger ∧
      ((({} : Engine).listening [.interpretation, .parsing]).ranOn [wide]).status =
        .stopped (.unread (.unwritable .wideInteger)) ∧
      (({} : Engine).listening [.interpretation, .parsing]).leftOf [wide] =
        .error (.unread (.unwritable .wideInteger)) ∧
      ((({} : Engine).listening [.interpretation, .parsing]).ranOn [wide]).results <+:
        ((({} : Engine).listening []).ranOn [wide]).results ∧
      (∀ item ∈ [narrow].flatMap Document.entries, ∃ i, (item >>= Entry.read) = .ok i ∧
        i.isNarrow = true) ∧
      (({} : Engine).listening [.interpretation, .parsing]).ranOn [narrow] =
        (({} : Engine).listening []).ranOn [narrow] := by
  have hentries : [narrow].flatMap Document.entries =
      [.ok ⟨"p", 1, ">>> x - 9223372036854775807".toList⟩] := rfl
  have hread : ∀ item ∈ [narrow].flatMap Document.entries,
      ∃ i, (item >>= Entry.read) = .ok i ∧ i.isNarrow = true := by
    intro item hitem
    rw [hentries, List.mem_singleton] at hitem
    subst hitem
    exact ⟨.evaluate (.binary .sub (.reference "x") (.integer 9223372036854775807)),
      eq_ok_of_toOption (by decide +kernel), by decide⟩
  obtain ⟨_, _, hstopped, _⟩ := answers_with_channels {} [.interpretation, .parsing] [wide]
  obtain ⟨hstatus, hleft, hresults⟩ := hstopped .wideInteger (by decide) unwritten?_wide
  obtain ⟨hran, _, _, hclear⟩ := answers_with_channels {} [.interpretation, .parsing] [narrow]
  exact ⟨unwritten?_wide, hstatus, hleft, hresults, hread, hran.2 fun _ => hclear hread⟩

/-- **Listening to the parsing changes what is answered** on `wide`: without channels its run comes to
    the end and both evaluations are left, and with the parsing on neither is so. -/
theorem answers_changed_wide :
    ((({} : Engine).listening []).ranOn [wide]).status = .ended ∧
      (({} : Engine).listening [.parsing]).ranOn [wide] ≠ (({} : Engine).listening []).ranOn [wide] ∧
      (({} : Engine).listening [.parsing]).leftOf [wide] ≠
        (({} : Engine).listening []).leftOf [wide] := by
  have hended : ((({} : Engine).listening []).ranOn [wide]).status = .ended := by
    rw [(Engine.faultless_listening {} [] [wide]).ends]
    decide +kernel
  have hstopped : ((({} : Engine).listening [.parsing]).ranOn [wide]).status =
      .stopped (.unread (.unwritable .wideInteger)) :=
    Engine.status_of_unwritten? {} (by decide) unwritten?_wide
  refine ⟨hended, ?_, ?_⟩
  · intro h
    rw [h, hended] at hstopped
    cases hstopped
  · intro h
    have hleft := ((Engine.faultless_listening {} [.parsing] [wide]).residual _).2 hstopped
    rw [h, (Engine.faultless_listening {} [] [wide]).residual, hended] at hleft
    cases hleft

end Reckoner
