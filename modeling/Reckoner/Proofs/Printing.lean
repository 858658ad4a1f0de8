/-
  The lines that are printed.  The engine works on nodes, but what a node says is an expression, and all
  that it reads and specializes can be written down: whatever comes out of `specialize` is a node that
  went in, a node of the namespace, an operation on such nodes or the literal of a number.  So the
  residual program that is printed consists of lines, and read line by line it is that program again.
-/
import Reckoner.CommandLine
import Reckoner.Proofs.Residual

namespace Reckoner

open Source

/-- Whether a node says something that can be written down. -/
def Node.isWritable (n : Node) : Bool := n.expr.isWritable

/-- Whether an instruction on nodes can be written down. -/
def Instruction.isPrintable (i : Instruction Node) : Bool := (i.map Node.expr).isWritable

/-- A namespace of nodes that can all be written down. -/
def Namespace.Printable (ns : Namespace Node) : Prop := ∀ x n, ns.find? x = some n → n.isWritable = true

/-- Binding a node that can be written down keeps a namespace printable. -/
theorem Namespace.Printable.bind {ns : Namespace Node} (h : ns.Printable) (x : String) {n : Node}
    (hn : n.isWritable = true) : (ns.bind x n).Printable :=
  forall_bind (P := fun _ (n : Node) => n.isWritable = true) h hn

namespace Engine

/-! ## Reading

  What the engine reads is what is read plainly, placed: it gets numbers for its parts, and the
  expression that a placed node says is the one that was placed (`Node.expr_place`). -/

/-- The node of a source can be written down. -/
theorem isWritable_of_readExpr {en : Engine} {src : List Char} {n : Node}
    (h : (en.readExpr src).1 = .ok n) :
    n.isWritable = true := by
  unfold readExpr at h
  split at h
  · cases h
  · split at h
    · cases h
    · split at h
      · cases h
      · -- past the faults of the source, an expression has been read, and it is placed
        rename_i e he
        cases h
        unfold expressionOf at he
        split at he
        · rename_i hx
          cases he
          show (Node.place _ e).1.expr.isWritable = true
          rw [Node.expr_place]
          exact isWritable_of_exprOf hx
        · cases he

/-- The instruction of a line can be written down. -/
theorem isPrintable_of_readLine {en : Engine} {line : List Char} {i : Instruction Node}
    (h : (en.readLine line).1 = .ok i) : i.isPrintable = true := by
  unfold readLine at h
  split at h
  · rename_i x src hhead
    obtain ⟨n, hn, rfl⟩ := exists_of_map_ok h
    exact (Bool.and_eq_true _ _).mpr ⟨isName_of_instruction? hhead, isWritable_of_readExpr hn⟩
  · obtain ⟨n, hn, rfl⟩ := exists_of_map_ok h
    exact isWritable_of_readExpr hn
  · cases h

/-- Where nobody listens to the parsing, reading a source is reading it plainly and numbering the
    parts. -/
theorem readExpr_unheard {en : Engine} (hcs : .parsing ∉ en.channels) {src : List Char} {e : Expr}
    (h : Source.readExpr src = .ok e) : en.readExpr src = (.ok (en.place e).1, (en.place e).2) := by
  obtain ⟨x, hx, he⟩ := exists_of_bind_ok h
  simp only [readExpr, hx, noteSource, if_neg hcs, he]

/-- Whatever is fetched from a document can be written down. -/
theorem isPrintable_of_fetch {en : Engine} {entry : Except ReadError Entry} {i : Instruction Node}
    (h : (en.fetch entry).1 = .ok i) : i.isPrintable = true := by
  unfold fetch at h
  split at h
  · rename_i e
    unfold readEntry at h
    simp only at h
    split at h
    · cases h
    · cases h
    · rename_i j hj
      cases h
      exact isPrintable_of_readLine hj
  · cases h

/-! ## Specializing

  What is new in a step of the specialization is an operation on what is left of its operands, or the
  literal that such an operation is folded to. -/

/-- A folded operation is the literal of a number. -/
theorem isWritable_of_fold {en : Engine} {op : Operator} {l r n : Node}
    (h : (en.fold op l r).1 = .ok (some n)) : n.isWritable = true := by
  -- a failure leaves the operation as it is, or is a fault: neither is a literal
  have hrefuse : ∀ f : Failure, (if f.recoverable then Except.ok none else .error f) ≠
      (Except.ok (some n) : Except Failure (Option Node)) := by
    intro f
    split <;> exact fun h => nomatch h
  unfold fold at h
  simp only at h
  split at h
  · exact absurd h (hrefuse _)
  · split at h
    · exact absurd h (hrefuse _)
    · split at h
      · exact absurd h (hrefuse _)
      · rename_i z _
        cases h
        show (Node.place _ (.ofNumber z)).1.expr.isWritable = true
        rw [Node.expr_place]
        exact Expr.isWritable_ofNumber z

/-- What is made of an operation and what is left of its operands: the operation itself if they have not
    changed, a new one if they have, or the literal that it is folded to. -/
theorem isWritable_of_combine {en : Engine} {n l r n' : Node} {op : Operator} {changed : Bool}
    (hn : n.isWritable = true) (hop : op.isArithmetic = true) (hl : l.isWritable = true)
    (hr : r.isWritable = true) (h : (en.combine n op changed l r).1 = .ok n') : n'.isWritable = true := by
  -- what stands if nothing is folded
  have hjoined : (if changed then en.join op l r else (n, en)).1.isWritable = true := by
    split
    · exact Expr.isWritable_binary.2 ⟨hop, hl, hr⟩
    · exact hn
  unfold combine at h
  simp only at h
  split at h
  · split at h
    · rename_i e hfold
      cases h
      exact isWritable_of_fold hfold
    · cases h
      exact hjoined
    · cases h
  · cases h
    exact hjoined

/-- A name stays if it is not bound or on a cycle; any other is replaced by what is left of its
    binding. -/
theorem specialize_reference (en : Engine) (ns : Namespace Node) (i : Nat) (x : String) :
    en.specialize ns (.reference i x) = match ns.find? x with
      | none => (.ok (.reference i x), en)
      | some b => if ns.onCycle x then (.ok (.reference i x), en) else en.specialize ns b := by
  rw [specialize]
  split
  · rename_i hb
    rw [hb]
  · rename_i b hb
    rw [hb]

/-- Specialization of nodes stays among what can be written down. -/
theorem isWritable_of_specialize {en : Engine} {ns : Namespace Node} (hns : ns.Printable) {n n' : Node}
    (hn : n.isWritable = true) (h : (en.specialize ns n).1 = .ok n') : n'.isWritable = true := by
  fun_induction specialize en ns n generalizing n' with
  | case1 en i k => cases h; exact hn
  | case2 en i k d => cases h; exact hn
  | case3 en i x hb => cases h; exact hn
  | case4 en i x b hb hc => cases h; exact hn
  -- a name is replaced by its binding, which the namespace vouches for
  | case5 en i x b hb hc ih => exact ih (hns x b hb) h
  | case6 => cases h
  | case7 => cases h
  | case8 en i op l r left l' hl' right r' hr' ihl =>
    -- the right operand is specialized by the engine that the left one has left behind
    rename_i ihr
    obtain ⟨hop, hl, hr⟩ := Expr.isWritable_binary.1 hn
    exact isWritable_of_combine hn hop (ihl hl hl') (ihr hr hr') h

end Engine

/-- The residual program of documents can be written down. -/
theorem Session.isPrintable_of_specializeAll {s : Session} (hs : s.bindings.Printable)
    {source : List (Except ReadError Entry)} {is : List (Instruction Node)}
    (h : (Session.specializeAll Engine.fetch s source).1 = .ok is) : ∀ i ∈ is, i.isPrintable = true := by
  induction source generalizing s is with
  | nil =>
    cases h
    exact fun _ h => nomatch h
  | cons item rest ih =>
    unfold Session.specializeAll at h
    simp only at h
    split at h
    · -- the rest is not read: a reading failed
      cases h
    · rename_i x n hfetch
      obtain ⟨hx, hn⟩ := (Bool.and_eq_true _ _).mp (Engine.isPrintable_of_fetch hfetch)
      split at h
      · cases h
      · rename_i n' hspecial
        have hn' := Engine.isWritable_of_specialize hs hn hspecial
        obtain ⟨is', his, rfl⟩ := exists_of_map_ok h
        exact List.forall_mem_cons.2 ⟨(Bool.and_eq_true _ _).mpr ⟨hx, hn'⟩, ih (hs.bind x hn') his⟩
    · rename_i n hfetch
      split at h
      · cases h
      · rename_i n' hspecial
        have hn' := Engine.isWritable_of_specialize hs (Engine.isPrintable_of_fetch hfetch) hspecial
        obtain ⟨is', his, rfl⟩ := exists_of_map_ok h
        have hrest := ih (s := ⟨((s.engine.fetch item).2.specialize s.bindings n).2, s.bindings⟩) hs his
        exact List.forall_mem_cons.2 ⟨hn', hrest⟩
    · cases h

/-- What is left after pruning has been there before, so it can be written down as well. -/
theorem Engine.isPrintable_of_residual {en : Engine} {source : List (Except ReadError Entry)}
    {is : List (Instruction Node)} (h : (en.residual Engine.fetch source).1 = .ok is) :
    ∀ i ∈ is, i.isPrintable = true := by
  obtain ⟨q, hq, rfl⟩ := exists_of_map_ok h
  have hempty : (∅ : Namespace Node).Printable := fun _ _ h => nomatch h
  exact fun i hi => Session.isPrintable_of_specializeAll hempty hq i (mem_of_mem_prune hi)

/-! ## Printing -/

/-- A line end ends a line. -/
theorem splitLines_line {l : List Char} (hl : '\n' ∉ l) (r : List Char) :
    splitLines (l ++ '\n' :: r) = l :: splitLines r := by
  induction l with
  | nil => rfl
  | cons c l ih =>
    have hc : c ≠ '\n' := fun h => hl (h ▸ List.mem_cons_self)
    rw [List.cons_append, splitLines, if_neg hc, ih fun h => hl (List.mem_cons_of_mem c h)]

/-- Every line that is printed is followed by a line end. -/
theorem toList_unlines_cons (l : String) (ls : List String) :
    (unlines (l :: ls)).toList = l.toList ++ '\n' :: (unlines ls).toList := by
  simp [unlines, String.toList_join]

/-- Lines that are printed one below the other are these lines again. -/
theorem splitLines_unlines {ls : List String} (h : ∀ l ∈ ls, '\n' ∉ l.toList) :
    splitLines (unlines ls).toList = ls.map String.toList := by
  induction ls with
  | nil => rfl
  | cons l ls ih =>
    rw [toList_unlines_cons, splitLines_line (h l List.mem_cons_self),
      ih fun m hm => h m (List.mem_cons_of_mem l hm)]
    rfl

/-- The line of an instruction holds no line end. -/
theorem not_mem_text {i : Instruction Expr} (hi : i.isWritable = true) : '\n' ∉ i.text.toList := by
  cases i with
  | assign x e =>
    obtain ⟨hx, he⟩ := (Bool.and_eq_true _ _).mp hi
    have hname : '\n' ∉ x.toList := fun h => nomatch isWordChar_of_mem_name ⟨x.toList, hx⟩ _ h
    simp [Instruction.text, toList_text he, (head_body he).2, hname]
  | evaluate e => simp [Instruction.text, toList_text hi, (head_body hi).2]
  | missing => cases hi

/-- **Written and read back.**  Every instruction with proper names and arithmetic operators, whatever
    its integers, is read from its own line; and the lines that are printed of a residual program are
    read as that program. -/
theorem readLine_printed :
    (∀ i : Instruction Expr, i.isWritable = true → readLine i.text.toList = .ok i) ∧
      ∀ (en : Engine) (ds : List Document) (is : List (Instruction Node)),
        (en.residual Engine.fetch (ds.flatMap Document.entries)).1 = .ok is →
          (splitLines (printResidual en ds).out.toList).map readLine =
            is.map fun i => .ok (i.map Node.expr) := by
  refine ⟨fun i hi => readLine_text hi, fun en ds is h => ?_⟩
  have hprintable := Engine.isPrintable_of_residual h
  have hout : (printResidual en ds).out = unlines (is.map fun i => (i.map Node.expr).text) := by
    simp only [printResidual, h]
  have hlines : ∀ l ∈ is.map (fun i => (i.map Node.expr).text), '\n' ∉ l.toList := by
    intro l hl
    obtain ⟨i, hi, rfl⟩ := List.mem_map.1 hl
    exact not_mem_text (hprintable i hi)
  rw [hout, splitLines_unlines hlines, List.map_map, List.map_map]
  refine List.map_congr_left fun i hi => ?_
  exact readLine_text (hprintable i hi)

/-- A reserved word for a name, a negative numerator over zero, and a document of two lines. -/
theorem readLine_printed_reserved :
    (Instruction.assign "if" (.binary .sub (.rational (-3) 0) (.reference "a_b"))).isWritable = true ∧
      readLine (Instruction.assign "if"
          (.binary .sub (.rational (-3) 0) (.reference "a_b"))).text.toList =
        .ok (.assign "if" (.binary .sub (.rational (-3) 0) (.reference "a_b"))) ∧
      (({} : Engine).residual Engine.fetch ([⟨"p", "x := if\n>>> x\n"⟩].flatMap Document.entries)).1 =
        .ok [.evaluate (.reference 0 "if")] ∧
      (splitLines (printResidual {} [⟨"p", "x := if\n>>> x\n"⟩]).out.toList).map readLine =
        [.ok (.evaluate (.reference "if"))] := by
  have hwritable : (Instruction.assign "if"
      (.binary .sub (.rational (-3) 0) (.reference "a_b"))).isWritable = true := by
    decide
  have hresidual : (({} : Engine).residual Engine.fetch
      ([⟨"p", "x := if\n>>> x\n"⟩].flatMap Document.entries)).1 =
        .ok [.evaluate (.reference 0 "if")] := by
    -- each line is read plainly and its name numbered; then the second line gives way to the binding of
    -- the first
    have hentries : [⟨"p", "x := if\n>>> x\n"⟩].flatMap Document.entries =
        [.ok ⟨"p", 1, "x := if".toList⟩, .ok ⟨"p", 2, ">>> x".toList⟩] := rfl
    have hassign : instruction? "x := if".toList = some (.assign "x" "if".toList) := by decide +kernel
    have hevaluate : instruction? ">>> x".toList = some (.evaluate " x".toList) := by decide +kernel
    have hif : readExpr "if".toList = .ok (.reference "if") := eq_ok_of_toOption (by decide +kernel)
    have hx : readExpr " x".toList = .ok (.reference "x") := eq_ok_of_toOption (by decide +kernel)
    have hfirst : ({} : Engine).fetch (.ok ⟨"p", 1, "x := if".toList⟩) =
        (.ok (.assign "x" (.reference 0 "if")), { fresh := 1 }) := by
      simp only [Engine.fetch, Engine.readEntry, Engine.readLine, hassign]
      rw [Engine.readExpr_unheard (by decide) hif]
      rfl
    have hsecond : ({ fresh := 1 } : Engine).fetch (.ok ⟨"p", 2, ">>> x".toList⟩) =
        (.ok (.evaluate (.reference 1 "x")), { fresh := 2 }) := by
      simp only [Engine.fetch, Engine.readEntry, Engine.readLine, hevaluate]
      rw [Engine.readExpr_unheard (by decide) hx]
      rfl
    have hcycle : ((∅ : Namespace Node).bind "x" (.reference 0 "if")).onCycle "x" = false := by cbv
    have hunbound : ∀ (en : Engine) (ns : Namespace Node), ns.find? "if" = none →
        en.specialize ns (.reference 0 "if") = (.ok (.reference 0 "if"), en) := by
      intro en ns hns
      rw [Engine.specialize_reference, hns]
    have hbound : ∀ en : Engine,
        en.specialize ((∅ : Namespace Node).bind "x" (.reference 0 "if")) (.reference 1 "x") =
          (.ok (.reference 0 "if"), en) := by
      intro en
      rw [Engine.specialize_reference,
        show (Namespace.bind _ _ _).find? "x" = some (.reference 0 "if") from rfl]
      simp only [hcycle, Bool.false_eq_true, if_false]
      exact hunbound en _ rfl
    simp only [Engine.residual, hentries, Session.specializeAll, hfirst, hunbound _ ∅ rfl,
      hsecond, hbound]
    rfl
  exact ⟨hwritable, readLine_printed.1 _ hwritable, hresidual, readLine_printed.2 _ _ _ hresidual⟩

end Reckoner
