/-
  Sessions run as plain programs do.  Of what a session does with the lines of a document there remains,
  once the numbers of the nodes are forgotten, the plain run over what has been read.

  The reading alone depends on the channels: where somebody listens to the parsing, a phrase without a
  layout breaks it off.  `hear` says what comes of a line for given channels, without an engine.  A
  session and a namespace that `Mirrors` relates stay related by every line (`act_mirrors`), so the
  whole run is the plain run over the lines as they are heard (`course_run`), and the residual program
  is the plain one (`residual_eq`).
-/
import Reckoner.Engine.Session
import Reckoner.Proofs.Engine
import Reckoner.Proofs.Residual

namespace Reckoner

open Source

/-! ## What is heard of a source

  A line may be refused for its phrase before its expression is looked at, but only by one who listens.
  All else about the reading is as if nobody did. -/

/-- Why the phrase that a source says has no layout; `none` if it has one, or the source says no
    phrase. -/
def Source.layoutFault? (src : List Char) : Option LayoutFault :=
  match readPhrase src with
  | .ok x => x.fault?
  | .error _ => none

/-- What comes of the source of an expression when the channels `cs` are on. -/
def hearExpr (cs : List Channel) (src : List Char) : Except Refusal Expr :=
  match if .parsing ∈ cs then layoutFault? src else none with
  | some f => .error (.unwritable f)
  | none => (readExpr src).mapError .malformed

/-- What comes of a line. -/
def hearLine (cs : List Channel) (line : List Char) : Except Refusal (Instruction Expr) :=
  match instruction? line with
  | some (.assign x src) => (hearExpr cs src).map (.assign x)
  | some (.evaluate src) => (hearExpr cs src).map .evaluate
  | _ => .error (.malformed .head)

/-- What comes of a line of a document. -/
def hear (cs : List Channel) : Except ReadError Entry → Except Trouble (Instruction Expr)
  | .ok e =>
    match hearLine cs e.text with
    | .ok i => .ok i
    | .error (.malformed m) => .error (.unread (.malformed e.file e.line m))
    | .error (.unwritable f) => .error (.unwritable f)
  | .error c => .error (.unread c)

/-- Why the phrase of a line of a document has no layout. -/
def Source.entryFault? : Except ReadError Entry → Option LayoutFault
  | .ok e =>
    match instruction? e.text with
    | some (.assign _ src) => layoutFault? src
    | some (.evaluate src) => layoutFault? src
    | _ => none
  | .error _ => none

section Hear

variable {cs : List Channel} {src : List Char} {item : Except ReadError Entry}

/-- A phrase without a layout is all that a listener hears of a source. -/
theorem hearExpr_of_fault (hcs : .parsing ∈ cs) {f : LayoutFault} (hf : layoutFault? src = some f) :
    hearExpr cs src = .error (.unwritable f) := by
  rw [hearExpr, if_pos hcs, hf]

/-- Any other source is heard as it reads. -/
theorem hearExpr_of_clear (h : .parsing ∈ cs → layoutFault? src = none) :
    hearExpr cs src = (readExpr src).mapError .malformed := by
  have hnone : (if .parsing ∈ cs then layoutFault? src else none) = none := by
    split
    · exact h ‹_›
    · rfl
  rw [hearExpr, hnone]

/-- A line whose phrase has no layout is not heard by one who listens to the parsing. -/
theorem hear_of_fault (hcs : .parsing ∈ cs) {f : LayoutFault} (hf : entryFault? item = some f) :
    hear cs item = .error (.unwritable f) := by
  cases item with
  | error c => cases hf
  | ok e =>
    rw [hear, hearLine]
    rw [entryFault?] at hf
    -- the fault is one of the source, so the line has one
    cases hi : instruction? e.text with
    | none => simp only [hi, reduceCtorEq] at hf
    | some i =>
      rw [hi] at hf
      cases i with
      | assign x src =>
        simp only [hearExpr_of_fault hcs hf]
        rfl
      | evaluate src =>
        simp only [hearExpr_of_fault hcs hf]
        rfl
      | missing => cases hf

/-- Any other line is heard as it reads. -/
theorem hear_of_clear (h : .parsing ∈ cs → entryFault? item = none) :
    hear cs item = (item >>= Entry.read).mapError .unread := by
  cases item with
  | error c => rfl
  | ok e =>
    rw [hear, hearLine, show (Except.ok e >>= Entry.read) = e.read from rfl, Entry.read, readLine]
    rw [entryFault?] at h
    cases hi : instruction? e.text with
    | none => rfl
    | some i =>
      rw [hi] at h
      cases i with
      | assign x src =>
        simp only [hearExpr_of_clear h]
        cases readExpr src <;> rfl
      | evaluate src =>
        simp only [hearExpr_of_clear h]
        cases readExpr src <;> rfl
      | missing => rfl

/-- What is read of an entry is read of its line. -/
theorem readLine_of_read {e : Entry} {i : Instruction Expr} (h : e.read = .ok i) :
    readLine e.text = .ok i := by
  unfold Entry.read at h
  split at h
  · rename_i hline
    cases h
    exact hline
  · cases h

/-- A line is heard as it reads, unless one listens to the parsing of a phrase without a layout. -/
theorem hear_eq_or (cs : List Channel) (item : Except ReadError Entry) :
    hear cs item = (item >>= Entry.read).mapError .unread ∨
      .parsing ∈ cs ∧ ∃ f, hear cs item = .error (.unwritable f) := by
  by_cases hclear : .parsing ∈ cs → entryFault? item = none
  · exact Or.inl (hear_of_clear hclear)
  · obtain ⟨hcs, hfault⟩ := Classical.not_imp.1 hclear
    obtain ⟨f, hf⟩ := Option.ne_none_iff_exists'.1 hfault
    exact Or.inr ⟨hcs, f, hear_of_fault hcs hf⟩

/-- Only writable instructions are heard. -/
theorem isWritable_of_hear {i : Instruction Expr} (h : hear cs item = .ok i) : i.isWritable = true := by
  obtain heq | ⟨_, f, hf⟩ := hear_eq_or cs item
  · obtain ⟨e, _, hread⟩ := exists_of_bind_ok (eq_ok_of_mapError (heq.symm.trans h))
    exact isWritable_of_readLine (readLine_of_read hread)
  · cases hf.symm.trans h

end Hear

/-- The nodes of an instruction are stored. -/
def Instruction.Stored (store : Store) : Instruction Node → Prop
  | assign _ n => n.Stored store
  | evaluate n => n.Stored store
  | missing => True

namespace Engine

variable {en : Engine} {store : Store}

/-- Noting a source fails exactly if its phrase has no layout and somebody listens. -/
theorem noteSource_cases (en : Engine) (src : List Char) (x : Phrase) :
    (∃ f, x.fault? = some f ∧ .parsing ∈ en.channels ∧ en.noteSource src x = .error f) ∨
      (.parsing ∈ en.channels → x.fault? = none) ∧ ∃ en', en.noteSource src x = .ok en' ∧
        en.Leaves en' := by
  unfold noteSource layout
  by_cases hparsing : .parsing ∈ en.channels
  · rw [if_pos hparsing]
    cases x.fault? with
    | some f => exact Or.inl ⟨f, rfl, hparsing, rfl⟩
    | none => exact Or.inr ⟨fun _ => rfl, _, rfl, leaves_note _ _ _⟩
  · rw [if_neg hparsing]
    exact Or.inr ⟨fun h => absurd h hparsing, en, rfl, .refl en⟩

/-- A failure that the engine has not been changed by. -/
theorem error_yields {ε α β : Type} {view : α → β} {held : Store → α → Prop} {en' : Engine}
    (h : store.EndsAt en.fresh) (hleaves : en.Leaves en') (f : ε) :
    Yields view held store en.channels (.error f, en') (.error f) :=
  ⟨rfl, hleaves.channels, store, .refl store, hleaves.fresh ▸ h, by rintro _ ⟨⟩⟩

/-- **The engine reads a source** as it is heard, and makes new nodes for it. -/
theorem readExpr_yields (h : store.EndsAt en.fresh) (src : List Char) :
    Yields Node.expr Node.Stored store en.channels (en.readExpr src) (hearExpr en.channels src) := by
  unfold readExpr hearExpr layoutFault? Source.readExpr
  cases readPhrase src with
  | error m =>
    rw [ite_self]
    exact error_yields h (.refl en) _
  | ok x =>
    simp only
    -- the note is taken before the expression is made, so its fault comes first
    rcases en.noteSource_cases src x with ⟨f, hfault, hparsing, hnote⟩ | ⟨hfault, en', hnote, hleaves⟩
    · rw [hnote, if_pos hparsing, hfault]
      exact error_yields h (.refl en) _
    · have hnone : (if .parsing ∈ en.channels then x.fault? else none) = none := by
        split
        · exact hfault ‹_›
        · rfl
      rw [hnote, hnone]
      simp only [bind, Except.bind]
      cases expressionOf x with
      | error m => exact error_yields h hleaves _
      | ok e =>
        -- only now nodes are made, and they are new
        obtain ⟨s, hs, hends, hstored⟩ := Node.exists_stored_place e (hleaves.fresh ▸ h)
        refine ⟨congrArg Except.ok (Node.expr_place _ _), hleaves.channels, s, hs, hends, ?_⟩
        rintro _ ⟨⟩
        exact hstored

/-- What is yielded may be made into something else, if the plain outcome is made so as well. -/
theorem Yields.map {ε α β γ δ : Type} {view : α → β} {held : Store → α → Prop} {view' : γ → δ}
    {held' : Store → γ → Prop} {cs : List Channel} {o : Except ε α × Engine} {plain : Except ε β}
    (h : Yields view held store cs o plain) {f : α → γ} {g : β → δ}
    (hview : ∀ a, view' (f a) = g (view a)) (hheld : ∀ store a, held store a → held' store (f a)) :
    Yields view' held' store cs (o.1.map f, o.2) (plain.map g) := by
  obtain ⟨s, hs, hends, hstored⟩ := h.grown
  refine ⟨?_, h.channels, s, hs, hends, ?_⟩
  · rw [← h.outcome]
    cases o.1 with
    | error c => rfl
    | ok a => exact congrArg Except.ok (hview a)
  · intro c hc
    obtain ⟨a, ha, rfl⟩ := exists_of_map_ok hc
    exact hheld s a (hstored a ha)

/-- A line is read by its source. -/
theorem readLine_yields (h : store.EndsAt en.fresh) (line : List Char) :
    Yields (Instruction.map Node.expr) Instruction.Stored store en.channels (en.readLine line)
      (hearLine en.channels line) := by
  unfold readLine hearLine
  cases instruction? line with
  | none => exact error_yields h (.refl en) _
  | some i =>
    cases i with
    | assign x src => exact (readExpr_yields h src).map (fun _ => rfl) fun _ _ hn => hn
    | evaluate src => exact (readExpr_yields h src).map (fun _ => rfl) fun _ _ hn => hn
    | missing => exact error_yields h (.refl en) _

/-- **What is fetched from a document** is what is heard of it. -/
theorem fetch_yields (h : store.EndsAt en.fresh) (item : Except ReadError Entry) :
    Yields (Instruction.map Node.expr) Instruction.Stored store en.channels (en.fetch item)
      (hear en.channels item) := by
  cases item with
  | error c => exact error_yields h (.refl en) _
  | ok e =>
    have hread := readLine_yields h e.text
    obtain ⟨s, hs, hends, hstored⟩ := hread.grown
    rw [fetch, readEntry, hear, ← hread.outcome]
    cases hi : (en.readLine e.text).1 with
    | error r =>
      cases r with
      | malformed m => exact hread.failed _
      | unwritable f => exact hread.failed _
    | ok i =>
      -- the second note is about the instruction, and is taken when that has been read
      have hnote :=
        (en.readLine e.text).2.leaves_note .parsing fun _ => e.file ++ ":" ++ Text.ofInt e.line ++ ": " ++
          Text.quoted (String.ofList e.text) ++ " => " ++ (i.map Node.expr).text
      refine ⟨rfl, hnote.channels.trans hread.channels, s, hs, hnote.fresh ▸ hends, ?_⟩
      rintro _ ⟨⟩
      exact hstored i hi

end Engine

/-! ## Sessions and namespaces

  `Mirrors` is kept by each instruction, whatever comes of it: a step lemma for one instruction, one for
  one line, and inductions along the lines for whole runs. -/

/-- `s.Mirrors cs ns` — the session has bound nodes for the expressions that `ns` binds, tells them
    apart by their numbers, and listens to the channels `cs`. -/
structure Session.Mirrors (cs : List Channel) (s : Session) (ns : Namespace Expr) : Prop where
  bindings : s.bindings.exprs = ns
  channels : s.engine.channels = cs
  stored : ∃ store : Store, store.EndsAt s.engine.fresh ∧ s.bindings.Stored store

namespace Session

variable {s : Session} {ns : Namespace Expr} {cs : List Channel}

/-- A session begins without bindings. -/
theorem mirrors_empty (en : Engine) : Mirrors en.channels ⟨en, ∅⟩ ∅ :=
  ⟨rfl, rfl, fun _ => none, Store.endsAt_empty _, by rintro _ _ ⟨⟩⟩

/-- **One instruction.**  A session and a plain program either both fail, in one way and with the
    bindings as they were, or have the same result and go on with the same bindings. -/
theorem step_cases {store : Store} (hends : store.EndsAt s.engine.fresh)
    (hbound : s.bindings.Stored store) {i : Instruction Node} (hi : i.Stored store) :
    (∃ f, (s.step i).1 = .error f ∧ Reckoner.step s.bindings.exprs (i.map Node.expr) = .error f ∧
        (s.step i).2.Mirrors s.engine.channels s.bindings.exprs) ∨
      ∃ r ns, (s.step i).1 = .ok r ∧ Reckoner.step s.bindings.exprs (i.map Node.expr) = .ok (ns, r) ∧
        (s.step i).2.Mirrors s.engine.channels ns := by
  cases i with
  | assign x n =>
    -- the binding is specialized first, so a failure leaves the bindings as they were
    have hspecial := Engine.specialize_yields hends hbound hi
    obtain ⟨store', hext, hends', hstored⟩ := hspecial.grown
    simp only [step, Instruction.map, Reckoner.step, ← hspecial.outcome]
    cases hn : (s.engine.specialize s.bindings n).1 with
    | error f =>
      exact Or.inl ⟨f, rfl, rfl, rfl, hspecial.channels, store', hends', hbound.mono hext⟩
    | ok n' =>
      have hnote :=
        (s.engine.specialize s.bindings n).2.leaves_note .interpretation fun _ => assignmentNote x n n'
      refine Or.inr ⟨none, _, rfl, rfl, s.bindings.exprs_bind x n',
        hnote.channels.trans hspecial.channels, store', ?_, ?_⟩
      · exact hnote.fresh ▸ hends'
      · exact (hbound.mono hext).bind x (hstored n' hn)
  | evaluate n =>
    -- no binding changes, and no node is made
    have hnote := s.engine.leaves_note .interpretation fun _ => evaluationNote n
    obtain ⟨hout, hleaves⟩ :=
      (s.engine.note .interpretation fun _ => evaluationNote n).evaluate_eq s.bindings n
    have hboth := hnote.trans hleaves
    simp only [step, Instruction.map, Reckoner.step, ← hout]
    cases Result.ofOutcome
      ((s.engine.note .interpretation fun _ => evaluationNote n).evaluate s.bindings n).1 with
    | error f => exact Or.inl ⟨f, rfl, rfl, rfl, hboth.channels, store, hboth.fresh ▸ hends, hbound⟩
    | ok r => exact Or.inr ⟨some r, _, rfl, rfl, rfl, hboth.channels, store, hboth.fresh ▸ hends, hbound⟩
  | missing => exact Or.inl ⟨_, rfl, rfl, rfl, rfl, store, hends, hbound⟩

/-- **One line.**  A session acts on a line as a plain program does on what is heard of it, and goes on
    beside it. -/
theorem act_mirrors (h : s.Mirrors cs ns) (item : Except ReadError Entry) :
    (s.act Engine.fetch item).1 = (perform ns (hear cs item)).1 ∧
      (s.act Engine.fetch item).2.Mirrors cs (perform ns (hear cs item)).2 := by
  obtain ⟨rfl, rfl, store, hends, hbound⟩ := h
  have hfetch := Engine.fetch_yields hends item
  obtain ⟨store', hext, hends', hstored⟩ := hfetch.grown
  rw [act, ← hfetch.outcome]
  simp only
  cases hi : (s.engine.fetch item).1 with
  | error c => exact ⟨rfl, rfl, hfetch.channels, store', hends', hbound.mono hext⟩
  | ok i =>
    -- the instruction is executed by the engine that has read it
    have hcases :=
      step_cases (s := ⟨(s.engine.fetch item).2, s.bindings⟩) hends' (hbound.mono hext) (hstored i hi)
    rw [hfetch.channels] at hcases
    simp only [perform, Except.map]
    rcases hcases with ⟨f, hf, hplain, hmirrors⟩ | ⟨r, ns, hr, hplain, hmirrors⟩
    · rw [hf, hplain]
      exact ⟨rfl, hmirrors⟩
    · rw [hr, hplain]
      exact ⟨rfl, hmirrors⟩

/-- **All instructions specialized.**  What a session makes of the lines of a source is what a plain
    program makes of what is heard of them. -/
theorem specializeAll_eq (h : s.Mirrors cs ns) (source : List (Except ReadError Entry)) :
    (specializeAll Engine.fetch s source).1.map (List.map (Instruction.map Node.expr)) =
      Reckoner.specializeAll ns (source.map (hear cs)) := by
  induction source generalizing s ns with
  | nil => rfl
  | cons item rest ih =>
    obtain ⟨rfl, rfl, store, hends, hbound⟩ := h
    have hfetch := Engine.fetch_yields hends item
    obtain ⟨store', hext, hends', hstored⟩ := hfetch.grown
    rw [specializeAll, List.map_cons, ← hfetch.outcome]
    simp only
    cases hi : (s.engine.fetch item).1 with
    | error c => rfl
    | ok i =>
      cases i with
      | assign x n =>
        -- the rest is specialized with the new binding
        have hspecial := Engine.specialize_yields hends' (hbound.mono hext) (hstored _ hi)
        obtain ⟨store'', hext', hends'', hstored'⟩ := hspecial.grown
        simp only [Except.map, Instruction.map, Reckoner.specializeAll, ← hspecial.outcome]
        cases hn : ((s.engine.fetch item).2.specialize s.bindings n).1 with
        | error f => rfl
        | ok n' =>
          have hnext : Mirrors s.engine.channels
              ⟨((s.engine.fetch item).2.specialize s.bindings n).2, s.bindings.bind x n'⟩
              (s.bindings.exprs.bind x n'.expr) :=
            ⟨s.bindings.exprs_bind x n', hspecial.channels.trans hfetch.channels, store'', hends'',
              ((hbound.mono hext).mono hext').bind x (hstored' n' hn)⟩
          simp only [← ih hnext]
          cases (specializeAll Engine.fetch _ rest).1 <;> rfl
      | evaluate n =>
        -- the rest is specialized with the same bindings
        have hspecial := Engine.specialize_yields hends' (hbound.mono hext) (hstored _ hi)
        obtain ⟨store'', hext', hends'', hstored'⟩ := hspecial.grown
        simp only [Except.map, Instruction.map, Reckoner.specializeAll, ← hspecial.outcome]
        cases hn : ((s.engine.fetch item).2.specialize s.bindings n).1 with
        | error f => rfl
        | ok n' =>
          have hnext : Mirrors s.engine.channels
              ⟨((s.engine.fetch item).2.specialize s.bindings n).2, s.bindings⟩ s.bindings.exprs :=
            ⟨rfl, hspecial.channels.trans hfetch.channels, store'', hends'',
              (hbound.mono hext).mono hext'⟩
          simp only [← ih hnext]
          cases (specializeAll Engine.fetch _ rest).1 <;> rfl
      | missing => rfl

end Session

/-! ## Whole runs -/

/-- Pruning looks at the names of a node as at those of its expression. -/
theorem pruneWith_map (is : List (Instruction Node)) :
    pruneWith (is.map (Instruction.map Node.expr)) =
      ((pruneWith is).1.map (Instruction.map Node.expr), (pruneWith is).2) := by
  induction is with
  | nil => rfl
  | cons i rest ih =>
    cases i with
    | assign x n =>
      -- whether it is needed is told by the names in what follows
      simp only [List.map_cons, Instruction.map, pruneWith, ih]
      split <;> rfl
    | evaluate n =>
      simp only [List.map_cons, Instruction.map, pruneWith, ih]
      rfl
    | missing =>
      simp only [List.map_cons, Instruction.map, pruneWith, ih]

namespace Engine

/-- **A session's run is a plain run** over what is heard of the lines. -/
theorem course_run (en : Engine) (source : List (Except ReadError Entry)) :
    Results.course (fun s => s.bindings.exprs) (en.run fetch source) =
      Results.course id ((Results.start ∅ (source.map (hear en.channels))).drain perform) :=
  course_drain (R := fun (s : Session) ns => s.Mirrors en.channels ns) (fun _ _ h => h.bindings)
    (fun _ _ item h => Session.act_mirrors h item) (Session.mirrors_empty en) source 0

/-- **A residual program is the plain one** of what is heard of the lines. -/
theorem residual_eq (en : Engine) (source : List (Except ReadError Entry)) :
    (en.residual fetch source).1.map (List.map (Instruction.map Node.expr)) =
      Reckoner.residual (source.map (hear en.channels)) := by
  rw [residual, Reckoner.residual, ← Session.specializeAll_eq (Session.mirrors_empty en)]
  cases (Session.specializeAll fetch ⟨en, ∅⟩ source).1 with
  | error c => rfl
  | ok is => exact congrArg (fun o => Except.ok o.1) (pruneWith_map is).symm

end Engine

end Reckoner
