/-
  The arrangement of a phrase before it is written.  Four rules are applied everywhere, one after the
  other:

  * `dropBrackets`: brackets that hold a single word, list or call say nothing;
  * `arrangeCall`: attributes are put in their customary order, labels are shortened, and lists whose
    order says nothing are sorted;
  * `settleSum`: next to a list, a sum does not end its line behind the plus sign; the list takes a line
    for each item instead;
  * `groupArguments`: arguments without a name come first, then the named, then those behind stars.

  The rules are those of the printer that `Reckoner.Source.Layout` follows, whose code does not belong
  to the calculator; only the four that can show in what it prints are here.
-/
import Reckoner.Source.Attribute
import Reckoner.Source.Label
import Reckoner.Source.Phrase
import Reckoner.Source.Preparation

namespace Reckoner.Source

/-! ## A rule everywhere -/

mutual

/-- Apply a rule to all parts of a phrase, the inner ones first. -/
def everywhere (rule : Phrase → Phrase) : Phrase → Phrase
  | .name s => rule (.name s)
  | .int raw n => rule (.int raw n)
  | .float raw => rule (.float raw)
  | .text raw v => rule (.text raw v)
  | .bytes raw => rule (.bytes raw)
  | .paren x => rule (.paren (everywhere rule x))
  | .signed m x => rule (.signed m (everywhere rule x))
  | .binary op broken x y => rule (.binary op broken (everywhere rule x) (everywhere rule y))
  | .call f oneLine args => rule (.call (everywhere rule f) oneLine (everywhereAmong rule args))
  | .named n broken x => rule (.named n broken (everywhere rule x))
  | .starred double x => rule (.starred double (everywhere rule x))
  | .dot x n => rule (.dot (everywhere rule x) n)
  | .index x i => rule (.index (everywhere rule x) (everywhere rule i))
  | .slice x lower upper stride =>
    rule (.slice (everywhere rule x) (everywhereIn rule lower) (everywhereIn rule upper)
      (everywhereIn rule stride))
  | .list tall items => rule (.list tall (everywhereAmong rule items))
  | .dict entries => rule (.dict (everywhereAmong rule entries))
  | .pair k v => rule (.pair (everywhere rule k) (everywhere rule v))
  | .tuple bracketed oneLine items => rule (.tuple bracketed oneLine (everywhereAmong rule items))
  | .conditional x c y => rule (.conditional (everywhere rule x) (everywhere rule c) (everywhere rule y))
  | .comprehension curly body clauses =>
    rule (.comprehension curly (everywhere rule body) (everywhereAmong rule clauses))
  | .each vars domain => rule (.each (everywhere rule vars) (everywhere rule domain))
  | .filter c => rule (.filter (everywhere rule c))

/-- Apply a rule everywhere in a list of phrases. -/
def everywhereAmong (rule : Phrase → Phrase) : List Phrase → List Phrase
  | [] => []
  | x :: rest => everywhere rule x :: everywhereAmong rule rest

/-- Apply a rule everywhere in a phrase that may be absent. -/
def everywhereIn (rule : Phrase → Phrase) : Option Phrase → Option Phrase
  | none => none
  | some x => some (everywhere rule x)

end

/-! ## Brackets -/

/-- Whether brackets around a phrase say nothing. -/
def Phrase.standsAlone : Phrase → Bool
  | .name _ => true
  | .int _ _ => true
  | .float _ => true
  | .text _ _ => true
  | .list _ _ => true
  | .dict _ => true
  | .comprehension _ _ _ => true
  | .call _ _ _ => true
  | .paren _ => true
  | _ => false

/-- Drop brackets that say nothing. -/
def dropBrackets : Phrase → Phrase
  | .paren x => if x.standsAlone then x else .paren x
  | x => x

/-! ## Attributes -/

/-- What is called, if it has a name: a word, or words with points between them. -/
def Phrase.path? : Phrase → Option String
  | .name s => some s
  | .dot x n => x.path?.map fun path => qualified path n
  | _ => none

/-- The name of an argument that has one. -/
def Phrase.argumentName? : Phrase → Option String
  | .named n _ _ => some n
  | _ => none

/-- Whether one attribute of a call may stand before another: by their places, then by their names. -/
def attributesInOrder (called : String) (x y : Phrase) : Bool :=
  let a := x.argumentName?.getD ""
  let b := y.argumentName?.getD ""
  ((compareOfLessAndEq (attributePlace called a) (attributePlace called b)).then
    (List.compareLex charOrder a.toList b.toList)).isLE

/-- The arguments of a call with the attributes at the end in order. -/
def orderAttributes (called : String) (args : List Phrase) : List Phrase :=
  let isNamed (x : Phrase) : Bool := x.argumentName?.isSome
  let attributes := (args.reverse.takeWhile isNamed).reverse
  (args.reverse.dropWhile isNamed).reverse ++ attributes.mergeSort (attributesInOrder called)

mutual

/-- Change a value wherever `change` applies: the whole, or else either side of a sum, or else each
    branch of a `select`. -/
def adjust (change : Phrase → Option Phrase) : Phrase → Phrase
  | .binary op broken x y =>
    (change (.binary op broken x y)).getD
      (if op = .mark .plus then .binary op broken (adjust change x) (adjust change y)
      else .binary op broken x y)
  | .call f oneLine args =>
    (change (.call f oneLine args)).getD
      (.call f oneLine (if f.path? = some "select" then adjustBranches change args else args))
  | x => (change x).getD x

/-- Change the values in a dictionary that is the first of some arguments. -/
def adjustBranches (change : Phrase → Option Phrase) : List Phrase → List Phrase
  | .dict entries :: rest => .dict (adjustEntries change entries) :: rest
  | args => args

/-- Change the values of the entries of a dictionary. -/
def adjustEntries (change : Phrase → Option Phrase) : List Phrase → List Phrase
  | .pair k v :: rest => .pair k (adjust change v) :: adjustEntries change rest
  | entries => entries

end

/-- A label in its short form; two texts that make up a label become one. -/
def spellLabel? : Phrase → Option Phrase
  | .text raw v => some (.text raw (String.ofList (shortLabel v.toList)))
  | .binary (.mark .plus) _ (.text raw v) (.text _ w) =>
    if joinable v.toList w.toList then
      some (.text raw (String.ofList (shortLabel (v.toList ++ w.toList))))
    else none
  | _ => none

/-- A label, or the labels of a list, in their short forms. -/
def spellLabels? : Phrase → Option Phrase
  | .list tall items => some (.list tall (items.map fun x => (spellLabel? x).getD x))
  | x => spellLabel? x

/-- Texts, which can be sorted. -/
def Phrase.isText : Phrase → Bool
  | .text _ _ => true
  | _ => false

/-- The characters of a text. -/
def Phrase.characters : Phrase → List Char
  | .text _ v => v.toList
  | _ => []

/-- Some texts in the order of labels, each value once. -/
def sortTexts (xs : List Phrase) : List Phrase :=
  (xs.mergeSort fun x y => (labelOrder x.characters y.characters).isLE).eraseRepsBy
    fun x y => x.characters = y.characters

/-- Sort each run of texts in a list.  For every text that is dropped from a run, one item behind the
    run is passed over: it begins no run. -/
def sortRuns : List Phrase → List Phrase
  | [] => []
  | x :: rest =>
    if x.isText then
      let run := x :: rest.takeWhile Phrase.isText
      let later := rest.dropWhile Phrase.isText
      let sorted := sortTexts run
      let passed := run.length - sorted.length
      sorted ++ (later.take passed ++ sortRuns (later.drop passed))
    else x :: sortRuns rest
termination_by xs => xs.length
decreasing_by
  · have h := length_dropWhile_le Phrase.isText rest
    simp only [List.length_drop, List.length_cons]
    omega
  · simp only [List.length_cons]
    omega

/-- A list with its texts in order. -/
def sortItems? : Phrase → Option Phrase
  | .list tall items => some (.list tall (sortRuns items))
  | _ => none

/-- The value of an attribute as custom wants it. -/
def arrangeAttribute (called : String) : Phrase → Phrase
  | .named n broken x =>
    let labelled := if holdsLabels called n then adjust spellLabels? x else x
    .named n broken (if holdsUnordered called n then adjust sortItems? labelled else labelled)
  | x => x

/-- A call with its attributes as custom wants them. -/
def arrangeCall : Phrase → Phrase
  | .call f oneLine args =>
    let called := f.path?.getD ""
    .call f oneLine ((orderAttributes called args).map (arrangeAttribute called))
  | x => x

/-! ## Sums with lists -/

/-- Lists, and calls whose only argument is one. -/
def Phrase.isListing : Phrase → Bool
  | .list _ _ => true
  | .call _ _ [x] => x.isListing
  | _ => false

/-- Whether a listing or a call takes several lines. -/
def Phrase.isTall : Phrase → Bool
  | .list tall items => tall || 1 < items.length
  | .call _ _ [x] => x.isTall
  | .call _ oneLine args => !oneLine && 1 < args.length
  | _ => false

/-- A listing with a line for each item, or, if its only item is a listing, with that one so. -/
def spread? : Phrase → Option Phrase
  | .list true items => some (.list true items)
  | .list false [x] =>
    match spread? x with
    | some y => some (.list false [y])
    | none => some (.list true [x])
  | .list false items => some (.list true items)
  | .call f oneLine [x] => (spread? x).map fun y => .call f oneLine [y]
  | _ => none

/-- Whether one of the addends of a sum is a listing. -/
def Phrase.addsListing : Phrase → Bool
  | .binary (.mark .plus) _ x y => y.isListing || x.addsListing
  | x => x.isListing

/-- The last addend of a sum. -/
def Phrase.lastAddend : Phrase → Phrase
  | .binary (.mark .plus) _ _ y => y
  | x => x

/-- A sum in which no line ends before a listing, which takes several lines instead, nor behind an
    addend that takes several lines. -/
def settleAddends : Phrase → Phrase
  | .binary (.mark .plus) broken x y =>
    let front := settleAddends x
    if broken then
      match spread? y with
      | some z => .binary (.mark .plus) false front z
      | none => .binary (.mark .plus) (!front.lastAddend.isTall) front y
    else .binary (.mark .plus) false front y
  | x => x

/-- Settle the line ends of a sum with a listing. -/
def settleSum : Phrase → Phrase
  | .binary (.mark .plus) broken x y =>
    let sum := Phrase.binary (.mark .plus) broken x y
    if sum.addsListing then settleAddends sum else sum
  | x => x

/-! ## Groups of arguments -/

/-- The group of an argument: without a name, with a name, behind a star, behind two. -/
def Phrase.argumentRank : Phrase → Nat
  | .named _ _ _ => 1
  | .starred false _ => 2
  | .starred true _ => 3
  | _ => 0

/-- A call with its arguments in groups, each in the order it had. -/
def groupArguments : Phrase → Phrase
  | .call f oneLine args =>
    .call f oneLine (args.mergeSort fun x y => x.argumentRank ≤ y.argumentRank)
  | x => x

/-- A phrase as it is to be written. -/
def arrange (x : Phrase) : Phrase :=
  everywhere groupArguments (everywhere settleSum (everywhere arrangeCall (everywhere dropBrackets x)))

end Reckoner.Source
