import TreeQuery.Query

/-!
# What a path selects

A query runs through three kinds of code: a descent while every tag belongs to one child, a
shortcut for siblings below which no tag remains, and a stack of elements that wait at nested
branch points.  `Node.select` is the plain recursion over the tags that all three stand for.

The bridge is `Outcome.texts`, which says what the end of a descent still selects.  A descent
changes nothing about it (`texts_descend`), so one step of the stack leaves the texts of the whole
stack as they are, and the stack reaches exactly the texts of its elements, from the top down
(`followWaiting_eq`).
-/

namespace TreeQuery

/-- The texts that tags select below an element: with no tag left the text of the element itself,
else what the other tags select below each child with the first tag, child by child. -/
def Node.select (n : Node) : List String → List String
  | [] => n.text.toList
  | tag :: rest => (n.children.filter (·.tag = tag)).flatMap fun child => child.select rest

namespace Query

theorem childrenNamed_eq (n : Node) (tag : String) :
    n.childrenNamed tag = n.children.filter (·.tag = tag) :=
  List.filter_congr fun child _ => Bool.beq_eq_decide_eq child.tag tag

theorem select_cons (n : Node) (tag : String) (rest : List String) :
    n.select (tag :: rest) = (n.childrenNamed tag).flatMap (·.select rest) := by
  rw [childrenNamed_eq, Node.select]

/-- The texts that the end of a descent still selects. -/
def Outcome.texts : Outcome → List String
  | .target n => n.text.toList
  | .branch siblings residual => siblings.flatMap (·.select residual)
  | .noMatch => []

/-- A descent neither loses nor adds a text, wherever it ends. -/
theorem texts_descend (n : Node) (tags : List String) :
    (descend n tags).texts = n.select tags := by
  induction tags generalizing n with
  | nil => rfl
  | cons tag rest ih =>
    rw [select_cons, descend]
    split
    · next none => rw [none]; rfl
    · next child one => rw [one, ih child, List.flatMap_singleton]
    · rfl

/-! ## The stack of waiting elements -/

/-- The texts that are still to be reached from a stack, from its top down. -/
def textsWaiting (waiting : List (Node × List String)) : List String :=
  waiting.flatMap fun w => w.1.select w.2

theorem textsWaiting_cons (n : Node) (tags : List String) (rest : List (Node × List String)) :
    textsWaiting ((n, tags) :: rest) = n.select tags ++ textsWaiting rest := rfl

theorem textsWaiting_siblings (siblings : List Node) (residual : List String)
    (rest : List (Node × List String)) :
    textsWaiting (siblings.map ((·, residual)) ++ rest) =
      siblings.flatMap (·.select residual) ++ textsWaiting rest := by
  rw [textsWaiting, List.flatMap_append, List.flatMap_map]
  rfl

/-- **The stack reaches the texts of its elements in order, each once.** -/
theorem followWaiting_eq (found : Array String) (waiting : List (Node × List String)) :
    (followWaiting found waiting).toList = found.toList ++ textsWaiting waiting := by
  -- One case for each way in which the descent at the top of the stack can end.
  fun_induction followWaiting found waiting with
  | case1 found => simp [textsWaiting]
  | case2 found n tags rest target ends text some ih =>
    have here := texts_descend n tags
    rw [ends, Outcome.texts, some] at here
    rw [ih, textsWaiting_cons, ← here]
    simp
  | case3 found n tags rest target ends none ih =>
    have here := texts_descend n tags
    rw [ends, Outcome.texts, none] at here
    rw [ih, textsWaiting_cons, ← here]
    simp
  | case4 found n tags rest siblings residual ends ih =>
    have here := texts_descend n tags
    rw [ends, Outcome.texts] at here
    rw [ih, textsWaiting_siblings, textsWaiting_cons, here]
  | case5 found n tags rest ends ih =>
    have here := texts_descend n tags
    rw [ends, Outcome.texts] at here
    rw [ih, textsWaiting_cons, ← here, List.nil_append]

theorem followWaiting_siblings (found : Array String) (siblings : List Node)
    (residual : List String) :
    (followWaiting found (siblings.map ((·, residual)))).toList =
      found.toList ++ siblings.flatMap (·.select residual) := by
  rw [followWaiting_eq]
  simpa [textsWaiting] using textsWaiting_siblings siblings residual []

/-- Siblings below which no tag remains select their own texts. -/
theorem filterMap_text (siblings : List Node) :
    siblings.filterMap (·.text) = siblings.flatMap (·.select []) := by
  induction siblings with
  | nil => rfl
  | cons n rest ih =>
    rw [List.flatMap_cons, ← ih, List.filterMap_cons, Node.select]
    cases n.text <;> rfl

theorem fanOut_eq (found : Array String) (siblings : List Node) (residual : List String) :
    (fanOut found siblings residual).toList =
      found.toList ++ siblings.flatMap (·.select residual) := by
  rw [fanOut]
  split
  · next empty =>
    rw [List.isEmpty_iff.mp empty, ← filterMap_text]
    simp
  · exact followWaiting_siblings found siblings residual

theorem evaluate_eq (n : Node) (tags : List String) : evaluate n tags = n.select tags := by
  rw [← texts_descend, evaluate]
  cases descend n tags with
  | target n => rfl
  | branch siblings residual => simp [fanOut_eq, Outcome.texts]
  | noMatch => rfl

/-- **Evaluation is selection.**  A path reaches the texts that its tags select, in that order and
as often.  Wherever a descent ends, what is left to do there selects the same; a fan-out adds the
texts of its siblings behind those found before, and with or without remaining tags the stack adds
what the fan-out adds. -/
theorem evaluate_eq_select :
    (∀ (p : Path) (n : Node), p.evaluate n = n.select p.segments) ∧
    (∀ (n : Node) (tags : List String), (descend n tags).texts = n.select tags) ∧
    (∀ (found : Array String) (siblings : List Node) (residual : List String),
      (fanOut found siblings residual).toList =
          found.toList ++ siblings.flatMap (·.select residual) ∧
        followWaiting found (siblings.map ((·, residual))) = fanOut found siblings residual) := by
  refine ⟨fun p n => evaluate_eq n p.segments, texts_descend, fun found siblings residual => ?_⟩
  refine ⟨fanOut_eq found siblings residual, Array.toList_inj.mp ?_⟩
  rw [fanOut_eq, followWaiting_siblings]

end Query

end TreeQuery
