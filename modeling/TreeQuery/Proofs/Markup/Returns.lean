import TreeQuery.Proofs.Markup.Decoding
import TreeQuery.Proofs.Markup.EndTag
import TreeQuery.Proofs.Text.Returns

/-!
# Markup without carriage returns

A reader takes a carriage return for a gap, as it takes a line feed, or for a character like others.
So texts that differ by carriage returns in front of line feeds are read event by event in the same
way (`Reader.next_unreturned`): the constructs end at the same `>`, the names are the same, and the
texts that are read differ by such carriage returns again, as do the texts that these are decoded to
(`decode_unreturned`).

Only what is read without a fault is followed here.  A fault would tell its position, and an end tag
of which only gaps are left would be named in full.
-/

namespace TreeQuery.Markup

open Text (Unreturned)

variable {s t u v a content content' : List Char} {ps ps' : List (List Char)} {r r₂ r' : Reader}
  {e : Event}

/-! ## References -/

theorem return_notMem_of_codePoint {base n : Nat} {fault : Nat → ReferenceFault}
    {digits : List Char} (h : codePoint base fault digits = .ok n) : '\r' ∉ digits := by
  rw [codePoint] at h
  generalize 0 = m at h
  induction digits generalizing m with
  | nil => exact List.not_mem_nil
  | cons c digits ih =>
    rw [List.foldlM_cons] at h
    cases value : digitValue? base c with
    | none =>
      rw [value] at h
      cases h
    | some d =>
      rw [value] at h
      have other : '\r' ≠ c := by
        rintro rfl
        cases value
      exact List.not_mem_cons_of_ne_of_not_mem other (ih _ h)

theorem return_notMem_of_digits {base limit : Nat} {fault : Nat → ReferenceFault}
    {long : ReferenceFault} {ofCode : Nat → Except ReferenceFault Char} {digits : List Char}
    {c : Char} (h : (if limit < Text.byteLength digits then .error long
      else codePoint base fault digits >>= ofCode) = .ok c) : '\r' ∉ digits := by
  split at h
  · cases h
  · cases code : codePoint base fault digits with
    | error _ =>
      rw [code] at h
      cases h
    | ok _ => exact return_notMem_of_codePoint code

/-- No reference has a carriage return in its name. -/
theorem return_notMem_of_character {first last : Nat} {name : List Char} {c : Char}
    (h : character first last name = .ok c) : '\r' ∉ name := by
  simp only [character] at h
  split at h
  · next digits => simpa using return_notMem_of_digits h
  · next digits _ => simpa using return_notMem_of_digits h
  · intro inside
    have unknown : named? name = none := by
      unfold named?
      repeat' split
      all_goals simp_all
    rw [unknown] at h
    cases h

theorem StandsFor.unreturned (stands : StandsFor ps a) (h : List.Forall₂ Unreturned ps ps') :
    ∃ b, StandsFor ps' b ∧ Unreturned a b := by
  induction h generalizing a with
  | nil => exact ⟨a, stands, .refl a⟩
  | @cons piece piece' ps ps' first _ ih =>
    obtain ⟨name, literal, c, rest, cut, named, later, rfl⟩ := exists_of_standsFor_cons stands
    obtain ⟨name', literal', cut', hname, hliteral⟩ := first.cutAt (by decide) (by decide) cut
    obtain rfl := hname.eq_of_free (return_notMem_of_character (named 0 0))
    obtain ⟨b, stands', hrest⟩ := ih later
    exact ⟨_, .cons cut' named stands', .cons c (hliteral.append hrest)⟩

/-- **Without the carriage returns a run stands for its text without them.** -/
theorem decode_unreturned (h : Unreturned u v) (decoded : decode u = .ok a) :
    ∃ b, decode v = .ok b ∧ Unreturned a b := by
  obtain ⟨literal, ps, w, cut, stands, rfl⟩ := decode_eq_ok_iff.mp decoded
  have parts := h.pieces (p := (· == '&')) (by decide) (by decide)
  rw [cut] at parts
  obtain ⟨literal', ps', hliteral, hps, cut'⟩ := List.forall₂_cons_left_iff.mp parts
  obtain ⟨b, stands', hw⟩ := stands.unreturned hps
  exact ⟨literal' ++ b, decode_eq_ok_iff.mpr ⟨literal', ps', b, cut', stands', rfl⟩,
    hliteral.append hw⟩

/-! ## Cutting off a construct -/

/-- Whether a construct and the text behind it are those of another text without some of its
carriage returns. -/
structure Cut.Unreturned (cut cut' : Cut) : Prop where
  content : Text.Unreturned cut.content cut'.content
  rest : Text.Unreturned cut.rest cut'.rest

/-- A cut by states of which neither character changes one. -/
theorem cutBy_unreturned {σ : Type} {next : σ → Char → Option σ} (Usual : σ → Prop)
    (keeps : ∀ {state c state'}, Usual state → next state c = some state' → Usual state')
    (hr : ∀ {state}, Usual state → next state '\r' = some state)
    (hn : ∀ {state}, Usual state → next state '\n' = some state) {state : σ} (usual : Usual state)
    {cut : Cut} (front : Unreturned content.reverse content'.reverse) (h : Unreturned s t)
    (found : cutBy? next state content s = some cut) :
    ∃ cut', cutBy? next state content' t = some cut' ∧ cut.Unreturned cut' := by
  induction h generalizing state content content' with
  | nil => cases found
  | @cons c s t h ih =>
    cases step : next state c with
    | none =>
      rw [Written.cutBy_end step] at found
      cases found
      exact ⟨_, Written.cutBy_end step _ _, front, h⟩
    | some state' =>
      rw [Written.cutBy_cons step] at found ⊢
      refine ih (keeps usual step) ?_ found
      rw [List.reverse_cons, List.reverse_cons]
      exact front.append (.refl [c])
  | @drop s t h ih =>
    rw [Written.cutBy_cons (hr usual), Written.cutBy_cons (hn usual)] at found
    rw [Written.cutBy_cons (hn usual)]
    refine ih usual ?_ found
    rw [List.reverse_cons, List.reverse_cons, List.reverse_cons, List.append_assoc]
    exact front.append (.drop .nil)

/-- Whether a quote, if there is one, is a quotation mark or an apostrophe. -/
def Quoted (quote : Option Char) : Prop := ∀ q ∈ quote, Written.IsQuote q

theorem Quoted.step {quote quote' : Option Char} {c : Char} (h : Quoted quote)
    (step : Written.quoteStep quote c = some quote') : Quoted quote' := by
  cases quote with
  | none =>
    simp only [Written.quoteStep] at step
    split at step
    · cases step
    · cases step
      split
      · next begins => simpa [Quoted, Written.IsQuote] using begins
      · simp [Quoted]
  | some q =>
    cases step
    split
    · simp [Quoted]
    · exact h

theorem Quoted.skip {quote : Option Char} {c : Char} (h : Quoted quote) (end_ : c ≠ '>')
    (bare : ¬ Written.IsQuote c) : Written.quoteStep quote c = some quote := by
  cases quote with
  | none => exact Written.quoteStep_bare end_ bare
  | some q => exact Written.quoteStep_inside fun same => bare (same ▸ h q rfl)

theorem tag_unreturned {cut : Cut} (h : Unreturned s t) (found : tag? s = some cut) :
    ∃ cut', tag? t = some cut' ∧ cut.Unreturned cut' :=
  have front : Unreturned ([] : List Char).reverse ([] : List Char).reverse := .nil
  cutBy_unreturned Quoted Quoted.step
    (fun usual => usual.skip (by decide) (by decide))
    (fun usual => usual.skip (by decide) (by decide)) (fun q h => by cases h) front h found

theorem doctype_unreturned {cut : Cut} (h : Unreturned s t) (found : doctype? s = some cut) :
    ∃ cut', doctype? t = some cut' ∧ cut.Unreturned cut' :=
  have front : Unreturned ([] : List Char).reverse ([] : List Char).reverse := .nil
  cutBy_unreturned (fun _ => True) (fun _ _ => trivial) (fun _ => rfl) (fun _ => rfl) trivial
    front h found

theorem dataSection_unreturned {cut : Cut} (h : Unreturned s t)
    (found : dataSection? s = some cut) :
    ∃ inner inner' rest', cut.content = inner ++ [']', ']'] ∧
      dataSection? t = some ⟨inner' ++ [']', ']'], rest'⟩ ∧ Unreturned inner inner' ∧
      Unreturned cut.rest rest' := by
  obtain ⟨⟨inner, rest⟩, cut, rfl⟩ := Option.map_eq_some_iff.mp found
  obtain ⟨inner', rest', cut', hinner, hrest⟩ := h.cutAt (by decide) (by decide) cut
  exact ⟨inner, inner', rest', rfl, congrArg _ cut', hinner, hrest⟩

/-- The three characters that a comment begins with are looked past, but they have to be these. -/
theorem comment_unreturned {cut : Cut} (h : Unreturned s t) (found : comment? s = some cut)
    (begins : ['!', '-', '-'].isPrefixOf cut.content = true) :
    ∃ cut', comment? t = some cut' ∧ ['!', '-', '-'].isPrefixOf cut'.content = true ∧
      Unreturned cut.rest cut'.rest := by
  obtain ⟨⟨inner, rest⟩, cut, rfl⟩ := Option.map_eq_some_iff.mp found
  obtain ⟨x, rfl⟩ : ∃ x, s = '!' :: '-' :: '-' :: x := by
    rcases s with _ | ⟨c, _ | ⟨d, _ | ⟨e, x⟩⟩⟩
    · cases cut
    · cases cut
    · cases cut
    · obtain ⟨rfl, rfl, rfl⟩ : '!' = c ∧ '-' = d ∧ '-' = e := by simpa using begins
      exact ⟨x, rfl⟩
  obtain ⟨y, rfl, hx⟩ := Unreturned.free_append (u := ['!', '-', '-']) (by decide) h
  obtain ⟨inner', rest', cut', -, hrest⟩ := hx.cutAt (by decide) (by decide) cut
  exact ⟨⟨['!', '-', '-'] ++ inner' ++ ['-', '-'], rest'⟩, congrArg _ cut', rfl, hrest⟩

theorem plain_unreturned (h : Unreturned s t) : (plain s).1.Unreturned (plain t).1 := by
  by_cases ended : '>' ∈ s
  · obtain ⟨inner, rest, rfl, free⟩ := List.eq_append_cons_of_mem ended
    obtain ⟨inner', v, rfl, hinner, hv⟩ := h.of_append (by simp)
    obtain ⟨rest', rfl, hrest⟩ := hv.cons_inv (by decide)
    have free' : '>' ∉ inner' := fun inside => free (hinner.subset inside)
    rw [Written.plain_append free, Written.plain_append free']
    exact ⟨hinner, hrest⟩
  · have ended' : '>' ∉ t := fun inside => ended (h.subset inside)
    rw [plain_of_free ended, plain_of_free ended']
    exact ⟨h, .nil⟩

/-! ## Reading a construct -/

theorem beginsWith_unreturned {mark : List Char} (free : '\r' ∉ mark.map Char.toLower)
    (h : Unreturned s t) (begins : beginsWith mark s = true) :
    beginsWith mark t = true ∧ Unreturned (s.drop mark.length) (t.drop mark.length) := by
  induction mark generalizing s t with
  | nil => exact ⟨rfl, h⟩
  | cons m mark ih =>
    obtain ⟨here, free⟩ := List.ne_and_not_mem_of_not_mem_cons free
    simp only [beginsWith, List.length_cons] at begins ih ⊢
    cases h with
    | nil => simp at begins
    | cons c h =>
      simp only [List.take_succ_cons, List.map_cons, List.cons_beq_cons, Bool.and_eq_true,
        List.drop_succ_cons] at begins ⊢
      obtain ⟨begins', later⟩ := ih free h begins.2
      exact ⟨⟨begins.1, begins'⟩, later⟩
    | drop h =>
      simp only [List.take_succ_cons, List.map_cons, List.cons_beq_cons, Bool.and_eq_true] at begins
      exact absurd (eq_of_beq begins.1) here

/-- Events that differ by carriage returns in their texts. -/
inductive Event.Unreturned : Event → Event → Prop where
  | text {s t : List Char} : Text.Unreturned s t → Event.Unreturned (.text s) (.text t)
  | data {s t : List Char} : Text.Unreturned s t → Event.Unreturned (.data s) (.data t)
  | same (e : Event) : Event.Unreturned e e

namespace Reader

/-- Whether what is read is read again, up to carriage returns, where they are missing from the
text, and leaves the same text up to those. -/
def Follows (read : Reader → Step) (r : Reader) : Prop :=
  ∀ {r₂ r' : Reader} {e : Event}, Unreturned r.rest r₂.rest → r₂.opened = r.opened →
    (∀ name ∈ r.opened, ∀ c ∈ name, isGap c = false) → read r = .event e r' →
    ∃ e' r₂', read r₂ = .event e' r₂' ∧ e.Unreturned e' ∧ r'.inTag = false ∧ r₂'.inTag = false ∧
      Unreturned r'.rest r₂'.rest

theorem follows_dataSection (r : Reader) : Follows dataSection r := by
  intro r₂ r' e h _ _ reads
  simp only [dataSection] at reads
  split at reads
  · cases reads
  · next cut found =>
    obtain ⟨inner, inner', rest', content, found', hinner, hrest⟩ := dataSection_unreturned h found
    have whole : cut.content.take (cut.content.length - 2) = inner := by simp [content]
    rw [whole] at reads
    split at reads
    · next begins =>
      cases reads
      obtain ⟨begins', behind⟩ := beginsWith_unreturned (by decide) hinner begins
      have reads' : r₂.dataSection = .event (.data (inner'.drop 8))
          (r₂.behind ⟨inner' ++ [']', ']'], rest'⟩ true) := by
        simp [dataSection, found', begins']
      exact ⟨_, _, reads', .data behind, rfl, rfl, hrest⟩
    · cases reads

theorem follows_comment (r : Reader) : Follows comment r := by
  intro r₂ r' e h _ _ reads
  simp only [comment] at reads
  split at reads
  · cases reads
  · next cut found =>
    split at reads
    · next begins =>
      cases reads
      obtain ⟨cut', found', begins', hrest⟩ := comment_unreturned h found begins
      have reads' : r₂.comment = .event .silent (r₂.behind cut' true) := by
        rw [comment, found']
        exact if_pos begins'
      exact ⟨_, _, reads', .same _, rfl, rfl, hrest⟩
    · cases reads

theorem follows_doctype (r : Reader) : Follows doctype r := by
  intro r₂ r' e h _ _ reads
  simp only [doctype] at reads
  split at reads
  · cases reads
  · next cut found =>
    split at reads
    · cases reads
    · next begins =>
      split at reads
      · cases reads
      · next declares =>
        cases reads
        obtain ⟨cut', found', hcontent, hrest⟩ := doctype_unreturned h found
        rw [Bool.not_eq_true, Bool.not_eq_false'] at begins
        obtain ⟨begins', behind⟩ := beginsWith_unreturned (by decide) hcontent begins
        have gaps : (cut'.content.drop 8).all isGap = (cut.content.drop 8).all isGap :=
          behind.all_eq (by decide)
        have reads' : r₂.doctype = .event .silent (r₂.behind cut' true) := by
          rw [doctype, found']
          exact (if_neg (by simp [begins'])).trans (if_neg (gaps ▸ declares))
        exact ⟨_, _, reads', .same _, rfl, rfl, hrest⟩

theorem leadingName_unreturned (h : Unreturned s t) : leadingName t = leadingName s :=
  h.takeWhile_eq (by decide) (by decide)

theorem follows_startTag (r : Reader) : Follows startTag r := by
  intro r₂ r' e h opened _ reads
  simp only [startTag] at reads
  split at reads
  · cases reads
  · next cut found =>
    obtain ⟨cut', found', hcontent, hrest⟩ := tag_unreturned h found
    split at reads
    · next slash =>
      -- The name is that of the content in front of the slash.
      obtain ⟨x, content⟩ := List.getLast?_eq_some_iff.mp (eq_of_beq slash)
      rw [content] at hcontent
      obtain ⟨y, content', hx⟩ := hcontent.concat_inv (by decide)
      rw [content, Written.emptyName] at reads
      cases reads
      have reads' : r₂.startTag = .event (.empty (leadingName x)) (r₂.behind cut' true) := by
        rw [startTag, found', ← leadingName_unreturned hx, ← Written.emptyName y, ← content']
        exact if_pos (by simp [content'])
      exact ⟨_, _, reads', .same _, rfl, rfl, hrest⟩
    · next slash =>
      cases reads
      have slash' : ¬ (cut'.content.getLast? == some '/') = true := by
        rwa [hcontent.getLast?_eq]
      have reads' : ∃ r₂', r₂.startTag = .event (.opened (leadingName cut.content)) r₂' ∧
          r₂'.inTag = false ∧ r₂'.rest = cut'.rest := by
        rw [startTag, found', ← leadingName_unreturned hcontent]
        exact ⟨_, if_neg slash', rfl, rfl⟩
      obtain ⟨r₂', reads', outside, behind⟩ := reads'
      exact ⟨_, r₂', reads', .same _, rfl, outside, behind ▸ hrest⟩

/-- Only the gaps behind a name can have carriage returns in them. -/
theorem endName_unreturned {name : List Char} (gapless : ∀ c ∈ name, isGap c = false)
    (h : Unreturned s t) (same : endName s = name) : endName t = name := by
  obtain ⟨gaps, rfl, gap, filled⟩ := exists_gaps_of_endName gapless same
  have free : '\r' ∉ name := fun inside => by cases gapless _ inside
  obtain ⟨gaps', rfl, hgaps⟩ := Unreturned.free_append free h
  refine (endName_append_iff gapless fun c hc => gap c (hgaps.subset hc)).mpr fun empty => ?_
  exact hgaps.eq_nil_iff.mpr (filled empty)

theorem closingName_unreturned (h : Unreturned s t) :
    Unreturned (closingName s) (closingName t) := by
  have content := (plain_unreturned h).content
  rwa [content_plain, content_plain] at content

theorem follows_endTag (begins : r.rest = '/' :: s) : Follows endTag r := by
  intro r₂ r' e h opened gapless reads
  rw [begins] at h
  obtain ⟨t, begins₂, ht⟩ := h.cons_inv (by decide)
  obtain ⟨expected, outer, names, same, rfl⟩ := (exists_endTag_iff begins).mp ⟨r', reads⟩
  have same₂ := endName_unreturned (gapless expected (names ▸ List.mem_cons_self))
    (closingName_unreturned ht) same
  obtain ⟨r₂', reads₂⟩ :=
    (exists_endTag_iff begins₂).mpr ⟨expected, outer, opened.trans names, same₂, rfl⟩
  obtain ⟨_, cut, outside, behind, -⟩ := judges_endTag reads
  obtain ⟨_, cut₂, outside₂, behind₂, -⟩ := judges_endTag reads₂
  cases cut
  cases cut₂
  refine ⟨_, r₂', reads₂, .same _, outside, outside₂, ?_⟩
  rw [behind, behind₂, begins, begins₂]
  exact (plain_unreturned (ht.cons '/')).rest

theorem follows_instruction (begins : r.rest = '?' :: s) : Follows instruction r := by
  intro r₂ r' e h _ _ reads
  have hrest := (plain_unreturned h).rest
  rw [begins] at h
  obtain ⟨t, begins₂, ht⟩ := h.cons_inv (by decide)
  simp only [instruction, content_of_begins begins (by decide)] at reads
  split at reads
  · next ends =>
    cases reads
    obtain ⟨long, last⟩ := Bool.and_eq_true_iff.mp ends
    -- There is something between the two question marks, and so there is without the returns.
    obtain ⟨m, whole, filled⟩ : ∃ m, closingName s = m ++ ['?'] ∧ m ≠ [] := by
      rcases List.eq_nil_or_concat' (closingName s) with empty | ⟨m, c, whole⟩
      · simp [empty] at long
      · rw [whole, ← List.cons_append, List.getLast?_concat] at last
        obtain rfl : c = '?' := Option.some.inj (eq_of_beq last)
        refine ⟨m, whole, ?_⟩
        rintro rfl
        simp [whole] at long
    obtain ⟨m', whole', hm⟩ := (whole ▸ closingName_unreturned ht).concat_inv (by decide)
    have filled' : m' ≠ [] := mt hm.eq_nil_iff.mp filled
    have reads' : r₂.instruction =
        .event .silent (r₂.behind (plain r₂.rest).1 (plain r₂.rest).2) := by
      simp only [instruction, content_of_begins begins₂ (by decide), whole']
      have pos : 0 < m'.length := List.length_pos_iff.mpr filled'
      have long' : 2 < ('?' :: (m' ++ ['?'])).length := by simp [pos]
      exact if_pos (by rw [decide_eq_true long', ← List.cons_append, List.getLast?_concat]; rfl)
    exact ⟨_, _, reads', .same _, rfl, rfl, hrest⟩
  · cases reads

theorem follows_declaration (begins : r.rest = '!' :: s) : Follows declaration r := by
  intro r₂ r' e h opened gapless reads
  have both := h
  rw [begins] at both
  obtain ⟨t, begins₂, ht⟩ := both.cons_inv (by decide)
  rcases declaration_cases begins reads with
    ⟨u, rfl, reads⟩ | ⟨u, rfl, reads⟩ | ⟨c, u, rfl, letter, reads⟩
  · obtain ⟨v, rfl, -⟩ := ht.cons_inv (by decide)
    rw [declaration_data begins₂]
    exact follows_dataSection r h opened gapless reads
  · obtain ⟨v, rfl, -⟩ := ht.cons_inv (by decide)
    rw [declaration_comment begins₂]
    exact follows_comment r h opened gapless reads
  · have other : c ≠ '\r' := by
      rintro rfl
      cases letter
    obtain ⟨v, rfl, -⟩ := ht.cons_inv other
    rw [declaration_doctype letter begins₂]
    exact follows_doctype r h opened gapless reads

/-- **A construct is read again without the carriage returns.** -/
theorem follows_construct (r : Reader) : Follows construct r := by
  intro r₂ r' e h opened gapless reads
  rcases construct_cases reads with ⟨s, begins, reads⟩ | ⟨s, begins, reads⟩ | ⟨s, begins, reads⟩ |
    ⟨begins, reads⟩
  · obtain ⟨t, begins₂, -⟩ := (begins ▸ h).cons_inv (by decide)
    rw [Written.construct_declaration begins₂]
    exact follows_declaration begins h opened gapless reads
  · obtain ⟨t, begins₂, -⟩ := (begins ▸ h).cons_inv (by decide)
    rw [Written.construct_endTag begins₂]
    exact follows_endTag begins h opened gapless reads
  · obtain ⟨t, begins₂, -⟩ := (begins ▸ h).cons_inv (by decide)
    rw [Written.construct_instruction begins₂]
    exact follows_instruction begins h opened gapless reads
  · have begins₂ : Written.BeginsTag r₂.rest := by
      obtain ⟨c, u, rest, bang, slash, question⟩ := begins
      rw [rest] at h
      generalize r₂.rest = t at h
      cases h with
      | cons _ _ => exact ⟨c, _, rfl, bang, slash, question⟩
      | drop _ => exact ⟨'\n', _, rfl, by decide, by decide, by decide⟩
    rw [Written.construct_startTag begins₂ (List.append_nil _).symm]
    exact follows_startTag r h opened gapless reads

/-! ## Reading an event -/

/-- **An event is read again without the carriage returns**, and the same text up to those is left
behind it. -/
theorem next_unreturned {y z : List Char} (ahead : r.Ahead y) (ahead₂ : r₂.Ahead z)
    (h : Unreturned y z) (opened : r₂.opened = r.opened)
    (gapless : ∀ name ∈ r.opened, ∀ c ∈ name, isGap c = false) (next : r.next = .event e r') :
    ∃ e' r₂' x x', r₂.next = .event e' r₂' ∧ e.Unreturned e' ∧ r'.Ahead x ∧ r₂'.Ahead x' ∧
      Unreturned x x' := by
  rcases begins_cases y with rfl | ⟨s, rfl⟩ | ⟨u, x, rfl, nonempty, free, ends⟩
  · rw [next_eq_finished ahead] at next
    cases next
  · obtain ⟨t, rfl, hs⟩ := h.cons_inv (by decide)
    obtain ⟨r₁, next₁, rest₁, opened₁⟩ := next_of_ahead ahead
    obtain ⟨r₃, next₃, rest₃, opened₃⟩ := next_of_ahead ahead₂
    rw [next₁] at next
    obtain ⟨e', r₂', reads, same, outside, outside₂, behind⟩ :=
      follows_construct r₁ (rest₁ ▸ rest₃ ▸ hs) (by rw [opened₁, opened₃, opened])
        (opened₁ ▸ gapless) next
    exact ⟨e', r₂', _, _, next₃.trans reads, same, ahead_rest outside, ahead_rest outside₂, behind⟩
  · have apart : x.head? ≠ some '\n' := fun first => by cases ends _ first
    obtain ⟨u', x', rfl, hu, hx⟩ := h.of_append apart
    have free' : ∀ c ∈ u', c ≠ '<' := fun c hc => free c (hu.subset hc)
    have ends' : EndsText x' := by
      intro c first
      rcases x with _ | ⟨d, x⟩
      · cases hx
        cases first
      · obtain rfl := ends d rfl
        obtain ⟨t, rfl, -⟩ := hx.cons_inv (by decide)
        exact (Option.some.inj first).symm
    obtain ⟨r₁, next₁, behind⟩ := yields_text ahead nonempty free ends
    obtain ⟨r₃, next₃, behind'⟩ :=
      yields_text ahead₂ (mt hu.eq_nil_iff.mp nonempty) free' ends'
    cases next.symm.trans next₁
    exact ⟨_, r₃, x, x', next₃, .text hu, behind, behind', hx⟩

/-- Where a text ends it ends without the carriage returns too. -/
theorem finished_unreturned {y z : List Char} (ahead : r.Ahead y) (ahead₂ : r₂.Ahead z)
    (h : Unreturned y z) (ends : r.next = .finished) : r₂.next = .finished := by
  have free : '\r' ∉ y := by
    rcases begins_cases y with rfl | ⟨s, rfl⟩ | ⟨u, x, rfl, nonempty, free, behind⟩
    · exact List.not_mem_nil
    · obtain ⟨r₁, next, rest, -⟩ := next_of_ahead ahead
      rw [← rest, rest_of_construct_eq_finished (next.symm.trans ends)]
      decide
    · obtain ⟨r₁, next, -⟩ := yields_text ahead nonempty free behind
      cases ends.symm.trans next
  exact next_eq_finished_of_ahead ends ahead (h.eq_of_free free ▸ ahead₂)

end Reader

end TreeQuery.Markup
