import Mathlib.Data.List.TakeWhile
import TreeQuery.Proofs.Written.Reading

/-!
# Markup is read from its own text

Which event a reader reads is decided by the text that the event takes and by the elements that are
open, and hardly by what follows: text goes on up to the next `<`, and an end tag or an instruction
without its `>` goes on to the end.

Every way to cut off a construct has this property (`Severs`), and what is made of the construct
depends on its content and the open elements alone (`Judges`).  So a construct is read anywhere from
the same text (`localAt_construct`), as soon as what tells its kind belongs to that text too.
-/

namespace TreeQuery.Markup

/-! ## Cutting off a construct -/

/-- Whether a construct is over: at its `>`, or where nothing is left. -/
def Closes (u x : List Char) : Prop := u.getLast? = some '>' ∨ x = []

theorem closes_concat (u x : List Char) : Closes (u ++ ['>']) x := .inl List.getLast?_concat

/-- The `<` in front is no `>`. -/
theorem closes_cons_iff {u x : List Char} : Closes ('<' :: u) x ↔ Closes u x := by
  unfold Closes
  cases u with
  | nil => simp
  | cons c t => rw [List.getLast?_cons_cons]

/-- A construct begins as the whole text does, up to the first `>`. -/
theorem Closes.exists_append {u x w s : List Char} (h : Closes u x) (same : u ++ x = w ++ s)
    (free : '>' ∉ w.dropLast) : ∃ v, u = w ++ v := by
  obtain ⟨m, rfl, rfl⟩ | ⟨v, hu, -⟩ := List.append_eq_append_iff.mp same
  · -- The construct would end inside of `w`, so there is nothing of `w` left.
    by_cases empty : m = []
    · exact ⟨[], by simp [empty]⟩
    · rcases h with ended | h
      · rw [List.dropLast_append_of_ne_nil empty] at free
        exact absurd (List.mem_append_left _ (List.mem_of_getLast? ended)) free
      · exact absurd (List.append_eq_nil_iff.mp h).1 empty
  · exact ⟨v, hu⟩

/-- Whether a construct is cut off by its own text, whatever follows it. -/
def Severs (cut? : List Char → Option Cut) : Prop :=
  ∀ {s cut}, cut? s = some cut → ∃ u, s = u ++ cut.rest ∧ Closes u cut.rest ∧
    ∀ x, Closes u x → cut? (u ++ x) = some ⟨cut.content, x⟩

/-- Whether a construct always has its `>`, and is cut off there, whatever follows. -/
def Bounds (cut? : List Char → Option Cut) : Prop :=
  ∀ {s cut}, cut? s = some cut → ∃ inner, s = inner ++ '>' :: cut.rest ∧
    ∀ x, cut? (inner ++ '>' :: x) = some ⟨cut.content, x⟩

theorem Bounds.severs {cut? : List Char → Option Cut} (h : Bounds cut?) : Severs cut? := by
  intro s cut found
  obtain ⟨inner, rfl, again⟩ := h found
  refine ⟨inner ++ ['>'], by simp, closes_concat inner _, fun x _ => ?_⟩
  simpa using again x

/-- What is passed over is content, and the character behind it is the end. -/
theorem exists_of_cutBy {σ : Type} {next : σ → Char → Option σ} {state : σ} {content s : List Char}
    {cut : Cut} (h : cutBy? next state content s = some cut) :
    ∃ inner c, s = inner ++ c :: cut.rest ∧ (∃ state', next state' c = none) ∧
      ∀ x, cutBy? next state content (inner ++ c :: x) = some ⟨cut.content, x⟩ := by
  induction s generalizing state content with
  | nil => cases h
  | cons c s ih =>
    cases step : next state c with
    | none =>
      rw [Written.cutBy_end step] at h
      cases h
      exact ⟨[], c, rfl, ⟨state, step⟩, fun x => Written.cutBy_end step content x⟩
    | some state' =>
      rw [Written.cutBy_cons step] at h
      obtain ⟨inner, d, rfl, ends, again⟩ := ih h
      refine ⟨c :: inner, d, rfl, ends, fun x => ?_⟩
      rw [List.cons_append, Written.cutBy_cons step, again]

/-- A cut by states is decided by its own text if only `>` can end it. -/
theorem bounds_cutBy {σ : Type} {next : σ → Char → Option σ} (state : σ)
    (ends : ∀ state c, next state c = none → c = '>') : Bounds (cutBy? next state []) := by
  intro s cut h
  obtain ⟨inner, c, rfl, ⟨state', last⟩, again⟩ := exists_of_cutBy h
  obtain rfl := ends state' c last
  exact ⟨inner, rfl, again⟩

theorem bounds_tag : Bounds tag? := by
  refine bounds_cutBy none fun quote c last => ?_
  cases quote with
  | none =>
    by_cases h : c = '>'
    · exact h
    · simp [h] at last
  | some q => cases last

theorem bounds_doctype : Bounds doctype? := by
  refine bounds_cutBy 0 fun depth c last => ?_
  by_cases h : c = '>'
  · exact h
  · by_cases nested : c = '<' <;> simp [h, nested] at last

theorem bounds_dataSection : Bounds dataSection? := by
  intro s cut h
  obtain ⟨⟨inner, rest⟩, found, rfl⟩ := Option.map_eq_some_iff.mp h
  obtain ⟨rfl, again⟩ := Text.cutAt_eq_some (by decide) found
  refine ⟨inner ++ [']', ']'], by simp, fun x => ?_⟩
  rw [dataSection?, List.append_assoc, List.cons_append, List.cons_append, List.nil_append]
  exact congrArg _ (again x)

theorem bounds_comment : Bounds comment? := by
  intro s cut h
  obtain ⟨⟨inner, rest⟩, found, rfl⟩ := Option.map_eq_some_iff.mp h
  obtain ⟨behind, again⟩ := Text.cutAt_eq_some (by decide) found
  -- There are three characters in front, as the mark behind them is not empty.
  have long : (s.take 3).length = 3 := by
    have := congrArg List.length behind
    simp only [List.length_drop, List.length_append, List.length_cons] at this
    rw [List.length_take]
    omega
  refine ⟨s.take 3 ++ (inner ++ ['-', '-']), ?_, fun x => ?_⟩
  · calc
      s = s.take 3 ++ s.drop 3 := (List.take_append_drop 3 s).symm
      _ = s.take 3 ++ (inner ++ ['-', '-']) ++ '>' :: rest := by rw [behind]; simp
  · have text : s.take 3 ++ (inner ++ ['-', '-']) ++ '>' :: x =
        s.take 3 ++ (inner ++ (['-', '-', '>'] ++ x)) := by simp
    rw [comment?, text, List.drop_left' long, List.take_left' long, again]
    rfl

theorem plain_of_free {s : List Char} (free : '>' ∉ s) : plain s = (⟨s, []⟩, false) := by
  have passed : s.dropWhile (· != '>') = [] :=
    List.dropWhile_eq_nil_iff.mpr fun c hc => bne_iff_ne.mpr fun eq => free (eq ▸ hc)
  rw [plain, passed]

/-- Without a `>` the construct takes everything that is left. -/
theorem severs_plain : Severs fun s => some (plain s).1 := by
  intro s cut h
  cases h
  by_cases ended : '>' ∈ s
  · obtain ⟨inner, rest, rfl, free⟩ := List.eq_append_cons_of_mem ended
    rw [Written.plain_append free]
    refine ⟨inner ++ ['>'], by simp, closes_concat inner _, fun x _ => ?_⟩
    simp only [List.append_assoc, List.singleton_append, Written.plain_append free]
  · rw [plain_of_free ended]
    refine ⟨s, by simp, .inr rfl, fun x closes => ?_⟩
    rcases closes with last | rfl
    · exact absurd (List.mem_of_getLast? last) ended
    · simp only [List.append_nil, plain_of_free ended]

namespace Reader

/-! ## Reading a construct -/

/-- Whether a reading cuts off a construct, and decides the event by its content and by the
elements that are open. -/
def Judges (read : Reader → Step) (cut? : List Char → Option Cut) : Prop :=
  ∀ {r e r'}, read r = .event e r' → ∃ cut, cut? r.rest = some cut ∧
    r'.inTag = false ∧ r'.rest = cut.rest ∧
    ∀ {r₂ : Reader} {x}, r₂.opened = r.opened → cut? r₂.rest = some ⟨cut.content, x⟩ →
      ∃ r₂', read r₂ = .event e r₂' ∧ r₂'.Ahead x

theorem judges_dataSection : Judges dataSection dataSection? := by
  intro r e r' h
  simp only [dataSection] at h
  split at h
  · cases h
  · next cut found =>
    split at h
    · next begins =>
      cases h
      refine ⟨cut, found, rfl, rfl, fun _ found₂ => ?_⟩
      rw [dataSection, found₂]
      exact ⟨_, if_pos begins, rfl⟩
    · cases h

theorem judges_comment : Judges comment comment? := by
  intro r e r' h
  unfold comment at h
  split at h
  · cases h
  · next cut found =>
    split at h
    · next begins =>
      cases h
      refine ⟨cut, found, rfl, rfl, fun _ found₂ => ?_⟩
      rw [comment, found₂]
      exact ⟨_, if_pos begins, rfl⟩
    · cases h

theorem judges_doctype : Judges doctype doctype? := by
  intro r e r' h
  unfold doctype at h
  split at h
  · cases h
  · next cut found =>
    split at h
    · cases h
    · next begins =>
      split at h
      · cases h
      · next declares =>
        cases h
        refine ⟨cut, found, rfl, rfl, fun _ found₂ => ?_⟩
        rw [doctype, found₂]
        exact ⟨_, (if_neg begins).trans (if_neg declares), rfl⟩

theorem judges_startTag : Judges startTag tag? := by
  intro r e r' h
  unfold startTag at h
  split at h
  · cases h
  · next cut found =>
    split at h
    · next slash =>
      cases h
      refine ⟨cut, found, rfl, rfl, fun _ found₂ => ?_⟩
      rw [startTag, found₂]
      exact ⟨_, if_pos slash, rfl⟩
    · next slash =>
      cases h
      refine ⟨cut, found, rfl, rfl, fun _ found₂ => ?_⟩
      rw [startTag, found₂]
      exact ⟨_, if_neg slash, rfl⟩

theorem judges_endTag : Judges endTag fun s => some (plain s).1 := by
  intro r e r' h
  simp only [endTag] at h
  split at h
  · cases h
  · next expected outer names =>
    split at h
    · next found =>
      cases h
      refine ⟨_, rfl, rfl, rfl, fun {r₂ x} opened found₂ => ?_⟩
      rcases cut₂ : plain r₂.rest with ⟨cut, ended⟩
      simp only [cut₂] at found₂
      cases found₂
      rw [endTag, cut₂, opened, names]
      exact ⟨_, if_pos found, rfl⟩
    · cases h

theorem judges_instruction : Judges instruction fun s => some (plain s).1 := by
  intro r e r' h
  simp only [instruction] at h
  split at h
  · next ends =>
    cases h
    refine ⟨_, rfl, rfl, rfl, fun {r₂ x} _ found₂ => ?_⟩
    rcases cut₂ : plain r₂.rest with ⟨cut, ended⟩
    simp only [cut₂] at found₂
    cases found₂
    rw [instruction, cut₂]
    exact ⟨_, if_pos ends, rfl⟩
  · cases h

/-- Whether a reading gives an event on account of the text that it takes, whatever follows. -/
def LocalAt (read : Reader → Step) (r : Reader) (e : Event) (r' : Reader) : Prop :=
  r'.inTag = false ∧ ∃ u, r.rest = u ++ r'.rest ∧ Closes u r'.rest ∧
    ∀ {r₂ : Reader} {x}, r₂.opened = r.opened → r₂.rest = u ++ x → Closes u x →
      ∃ r₂', read r₂ = .event e r₂' ∧ r₂'.Ahead x

theorem Judges.localAt {read : Reader → Step} {cut? : List Char → Option Cut}
    (judges : Judges read cut?) (severs : Severs cut?) {r r' : Reader} {e : Event}
    (h : read r = .event e r') : LocalAt read r e r' := by
  obtain ⟨cut, found, outside, behind, again⟩ := judges h
  obtain ⟨u, whole, closes, found₂⟩ := severs found
  rw [← behind] at whole closes
  refine ⟨outside, u, whole, closes, fun {r₂ x} opened rest closes₂ => again opened ?_⟩
  rw [rest, found₂ x closes₂]

/-- A reading that is told by what the construct begins with. -/
theorem LocalAt.of_begins {read read' : Reader → Step} {r r' : Reader} {e : Event}
    (h : LocalAt read r e r') {w s : List Char} (begins : r.rest = w ++ s)
    (free : '>' ∉ w.dropLast)
    (told : ∀ (r₂ : Reader) (t : List Char), r₂.rest = w ++ t → read' r₂ = read r₂) :
    LocalAt read' r e r' := by
  obtain ⟨outside, u, whole, closes, again⟩ := h
  obtain ⟨v, rfl⟩ := closes.exists_append (whole.symm.trans begins) free
  refine ⟨outside, w ++ v, whole, closes, fun {r₂ x} opened rest closes₂ => ?_⟩
  rw [told r₂ (v ++ x) (by rw [rest, List.append_assoc])]
  exact again opened rest closes₂

theorem declaration_data {r : Reader} {s : List Char} (rest : r.rest = '!' :: '[' :: s) :
    r.declaration = r.dataSection := by
  rw [declaration, rest]
  rfl

theorem declaration_comment {r : Reader} {s : List Char} (rest : r.rest = '!' :: '-' :: s) :
    r.declaration = r.comment := by
  rw [declaration, rest]
  rfl

theorem declaration_doctype {r : Reader} {c : Char} {s : List Char}
    (letter : (c == 'D' || c == 'd') = true) (rest : r.rest = '!' :: c :: s) :
    r.declaration = r.doctype := by
  rw [declaration, rest, List.drop_succ_cons, List.drop_zero]
  split
  · next eq => cases eq
  · next eq => cases eq; simp at letter
  · next eq => cases eq; simp at letter
  · next eq => cases eq; rw [if_pos letter]

/-- The character behind a `<!` tells how the declaration is read. -/
theorem declaration_cases {r r' : Reader} {e : Event} {s : List Char} (begins : r.rest = '!' :: s)
    (h : r.declaration = .event e r') :
    (∃ t, s = '[' :: t ∧ r.dataSection = .event e r') ∨
      (∃ t, s = '-' :: t ∧ r.comment = .event e r') ∨
      ∃ c t, s = c :: t ∧ (c == 'D' || c == 'd') = true ∧ r.doctype = .event e r' := by
  unfold declaration at h
  rw [begins, List.drop_succ_cons, List.drop_zero] at h
  split at h
  · cases h
  · exact .inl ⟨_, rfl, h⟩
  · exact .inr (.inl ⟨_, rfl, h⟩)
  · split at h
    · next letter => exact .inr (.inr ⟨_, _, rfl, letter, h⟩)
    · cases h

/-- Behind `<!` the next character tells the kind, and it belongs to the construct. -/
theorem LocalAt.of_declaration {read : Reader → Step} {r r' : Reader} {e : Event}
    (h : LocalAt read r e r') {c : Char} {s : List Char} (begins : r.rest = '!' :: c :: s)
    (told : ∀ (r₂ : Reader) (t : List Char), r₂.rest = '!' :: c :: t →
      r₂.declaration = read r₂) : LocalAt construct r e r' := by
  refine h.of_begins (w := ['!', c]) begins (by simp) fun r₂ t rest => ?_
  rw [Written.construct_declaration rest, told r₂ t rest]

theorem localAt_declaration {r r' : Reader} {e : Event} {s : List Char}
    (begins : r.rest = '!' :: s) (h : r.declaration = .event e r') :
    LocalAt construct r e r' := by
  rcases declaration_cases begins h with
    ⟨t, rfl, h⟩ | ⟨t, rfl, h⟩ | ⟨c, t, rfl, letter, h⟩
  · have data := judges_dataSection.localAt bounds_dataSection.severs h
    exact data.of_declaration begins fun _ _ => declaration_data
  · have comment := judges_comment.localAt bounds_comment.severs h
    exact comment.of_declaration begins fun _ _ => declaration_comment
  · have doctype := judges_doctype.localAt bounds_doctype.severs h
    exact doctype.of_declaration begins fun _ _ => declaration_doctype letter

/-- The character behind a `<` tells how the construct is read. -/
theorem construct_cases {r r' : Reader} {e : Event} (h : r.construct = .event e r') :
    (∃ s, r.rest = '!' :: s ∧ r.declaration = .event e r') ∨
      (∃ s, r.rest = '/' :: s ∧ r.endTag = .event e r') ∨
      (∃ s, r.rest = '?' :: s ∧ r.instruction = .event e r') ∨
      Written.BeginsTag r.rest ∧ r.startTag = .event e r' := by
  unfold construct at h
  split at h
  · cases h
  · next s begins => exact .inl ⟨s, begins, h⟩
  · next s begins => exact .inr (.inl ⟨s, begins, h⟩)
  · next s begins => exact .inr (.inr (.inl ⟨s, begins, h⟩))
  · next nonempty bang slash question =>
    obtain ⟨c, s, begins⟩ := List.exists_cons_of_ne_nil nonempty
    exact .inr (.inr (.inr ⟨⟨c, s, begins, fun eq => bang s (eq ▸ begins),
      fun eq => slash s (eq ▸ begins), fun eq => question s (eq ▸ begins)⟩, h⟩))

/-- **A construct is read from its own text.** -/
theorem localAt_construct {r r' : Reader} {e : Event} (h : r.construct = .event e r') :
    LocalAt construct r e r' := by
  rcases construct_cases h with ⟨s, begins, h⟩ | ⟨s, begins, h⟩ | ⟨s, begins, h⟩ | ⟨begins, h⟩
  · exact localAt_declaration begins h
  · refine (judges_endTag.localAt severs_plain h).of_begins (w := ['/']) begins (by simp) ?_
    exact fun r₂ t rest => Written.construct_endTag rest
  · refine (judges_instruction.localAt severs_plain h).of_begins (w := ['?']) begins (by simp) ?_
    exact fun r₂ t rest => Written.construct_instruction rest
  · obtain ⟨c, s, begins, other⟩ := begins
    refine (judges_startTag.localAt bounds_tag.severs h).of_begins (w := [c]) begins (by simp) ?_
    intro r₂ t rest
    exact Written.construct_startTag ⟨c, [], rfl, other⟩ rest

end Reader

end TreeQuery.Markup
