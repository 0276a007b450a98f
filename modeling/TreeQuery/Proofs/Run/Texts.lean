import Mathlib
import TreeQuery.Proofs.Document.Nesting
import TreeQuery.Proofs.Run.Progress
import TreeQuery.Proofs.Tree.Texts

/-!
# The texts of a document, wherever they come out

A text is collected from runs, data sections and references, and ends at children and end tags; but
it is collapsed whenever it becomes the text of an element.  So all texts of a tree that was read are
tidy (`Document.allTidy_of_parse`), and what is selected among them is, in queries and in runs.
-/

namespace TreeQuery

open Text (Tidy)

namespace Document

/-- The elements that a content has were made from contents themselves, or have none. -/
theorem Contains.allTidy {run : List (Nat × Markup.Event)} {ps : List Piece}
    (h : Contains run ps) : ∀ n ∈ Piece.children ps, n.AllTidy := by
  induction h with
  | nil => exact fun n mem => nomatch mem
  | text _ _ ih => exact ih
  | data _ ih => exact ih
  | silent _ ih => exact ih
  | empty _ ih => exact List.forall_mem_cons.mpr ⟨.new _, ih⟩
  | element _ _ ihInner ih => exact List.forall_mem_cons.mpr ⟨.ofPieces _ ihInner, ih⟩

/-- **Every text of a document is tidy.** -/
theorem allTidy_of_parse {document : String} {options : Options} {root : Node}
    (h : parse document options = .ok root) : root.AllTidy := by
  rw [parse, build_eq_conclude, conclude_eq_ok_iff (Markup.Reader.matched_trace _)] at h
  obtain ⟨-, ps, contains, one, -⟩ := h
  exact contains.allTidy root (one ▸ List.mem_singleton_self root)

end Document

theorem tidy_of_query {document path : String} {options : Document.Options} {values : List String}
    (h : query document path options = .ok values) : ∀ v ∈ values, Tidy v.toList := by
  unfold query at h
  split at h
  · cases h
  · split at h
    · cases h
    · next root read =>
      cases h
      exact fun v mem => (Document.allTidy_of_parse read).of_mem_evaluate mem

namespace Outcome

/-- Whether all texts of an outcome satisfy `P`: those of every result, those that the context keeps,
and those of every variable under whose name a result was stored. -/
structure AllTexts (P : String → Prop) (o : Outcome) : Prop where
  of_result : ∀ r ∈ o.results, ∀ v ∈ r.values, P v
  of_context : ∀ values ∈ o.context.results, ∀ v ∈ values, P v
  of_latest : ∀ v ∈ o.values, P v
  of_variable : ∀ r ∈ o.results, ∀ name, r.selection.output = some name →
    ∃ values, o.context.get? name = some (Json.texts values) ∧ ∀ v ∈ values, P v

/-- A name under which a result was stored stands for the last such result. -/
theorem exists_lastInto {name : String} {results : List SelectionResult} {r : SelectionResult}
    (mem : r ∈ results) (stored : r.selection.output = some name) :
    ∃ r' ∈ results, SelectionResult.lastInto? name results = some r' := by
  cases last : SelectionResult.lastInto? name results with
  | none =>
    have unstored := List.find?_eq_none.mp last r (List.mem_reverse.mpr mem)
    exact absurd (by simpa using stored) unstored
  | some r' => exact ⟨r', List.mem_reverse.mp (List.mem_of_find?_eq_some last), rfl⟩

theorem Records.allTexts {root : Node} {params : Dict Json} {made : List Selection} {o : Outcome}
    (h : o.Records root params made) {P : String → Prop}
    (results : ∀ r ∈ o.results, ∀ v ∈ r.values, P v) : o.AllTexts P where
  of_result := results
  of_context values mem := by
    rw [h.results_eq] at mem
    obtain ⟨r, made, rfl⟩ := List.mem_map.mp mem
    exact results r made
  of_latest v mem := by
    rw [h.outcome_values] at mem
    cases last : o.results.getLast? with
    | none => rw [last] at mem; cases mem
    | some r =>
      rw [last] at mem
      exact results r (List.mem_of_getLast? last) v mem
  of_variable r mem name stored := by
    obtain ⟨r', mem', last⟩ := exists_lastInto mem stored
    exact ⟨r'.values, by rw [h.get?_eq, last], results r' mem'⟩

end Outcome

theorem Plan.allTexts_of_run {p : Plan} {document : String} {o : Outcome}
    (h : (p.run document).outcome = .ok o) : o.AllTexts fun v => Tidy v.toList := by
  obtain ⟨root, read, made⟩ := exists_read h
  have records := Outcome.Records.of_foldlM made
  apply records.allTexts
  intro r mem v value
  rw [records.values_eq r mem] at value
  exact (Document.allTidy_of_parse read).of_mem_evaluate value

/-- **Texts are tidy wherever they come out.**  In a document that is read, with or without its
declaration lines, every element has no text or a tidy one; so has every query that is answered, and
every run that ends well, in its results, its context and its variables. -/
theorem texts_tidy (document : String) :
    (∀ options root, Document.parse document options = .ok root →
      ∀ n : Node, n.Within root → ∀ text, n.text = some text → Tidy text.toList) ∧
    (∀ path options values, query document path options = .ok values →
      ∀ v ∈ values, Tidy v.toList) ∧
    (∀ (p : Plan) o, (p.run document).outcome = .ok o → o.AllTexts fun v => Tidy v.toList) :=
  ⟨fun _ _ => Document.allTidy_of_parse, fun _ _ _ => tidy_of_query,
    fun _ _ => Plan.allTexts_of_run⟩

/-- One run of text from references to blanks, data and both sides of a comment. -/
theorem texts_tidy_mixed :
    let document := "<r> a&#160;<!-- --> b<![CDATA[\nc ]]>&#10;<d/>e</r>"
    let root : Node := ⟨"r", [⟨"d", [], none⟩], some "a b c"⟩
    let p : Plan := ⟨"p", none, .plain, Dict.empty, [⟨"/r", some "x", none⟩]⟩
    Document.parse document .plain = .ok root ∧ Tidy "a b c".toList ∧
      query document "/r" .plain = .ok ["a b c"] ∧ (∀ v ∈ ["a b c"], Tidy v.toList) ∧
      ∃ o, (p.run document).outcome = .ok o ∧ o.values = ["a b c"] ∧
        o.AllTexts fun v => Tidy v.toList := by
  intro document root p
  have read : Document.parse document .plain = .ok root := by cbv
  have answered : query document "/r" .plain = .ok ["a b c"] := by cbv
  have ran : (p.run document).outcome = .ok ⟨[⟨0, ⟨"/r", some "x", none⟩, ⟨"r", []⟩, ["a b c"]⟩],
      ⟨Dict.empty.insert "x" (Json.texts ["a b c"]), [["a b c"]]⟩⟩ := by cbv
  obtain ⟨ofParse, ofQuery, ofRun⟩ := texts_tidy document
  exact ⟨read, ofParse .plain root read root .root _ rfl, answered,
    ofQuery "/r" .plain _ answered, _, ran, rfl, ofRun p _ ran⟩

end TreeQuery
