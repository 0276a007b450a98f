import TreeQuery.Proofs.Markup.Kind

/-!
# Reading the same text again

A reader that comes to a place where markup begins comes there again if the text behind that place
changes (`exists_reads_again`), and from there on it reads whatever it finds.  If text stands in
front of the place, other text may even join it: then the place where the text began is the one that
the reader comes to again (`exists_reads_behind`).

Readers with the same text ahead and the same elements open read on in the same way
(`exists_reads_on`).
-/

namespace TreeQuery.Markup

open Reader (ofText Reads EndsText Yields Takes Replaces replaces_append replaces_self takes_nil
  takes_text takes_of_next takes_of_reads ahead_ofText ahead_ofText_mark next_eq_finished_of_ahead)

variable {before x y : List Char} {run : List (Nat × Event)} {r r₂ r' : Reader} {e : Event}

/-! ## From the beginning of a text -/

/-- A byte order mark is not read, and all that stands behind it is. -/
theorem exists_lead (text : List Char) :
    ∃ lead body, text = lead ++ body ∧ '>' ∉ lead ∧ (lead = [] → body.head? ≠ some '\uFEFF') ∧
      ∀ y, (lead = [] → y.head? ≠ some '\uFEFF') → (ofText (lead ++ y)).Ahead y := by
  by_cases mark : text.head? = some '\uFEFF'
  · obtain ⟨body, rfl⟩ := List.head?_eq_some_iff.mp mark
    exact ⟨['\uFEFF'], body, rfl, by decide, fun empty => (nomatch empty),
      fun y _ => ahead_ofText_mark y⟩
  · exact ⟨[], text, rfl, List.not_mem_nil, fun _ => mark, fun y unmarked =>
      ahead_ofText (unmarked rfl)⟩

theorem exists_ahead_ofText (text : List Char) :
    ∃ lead body, text = lead ++ body ∧ (ofText text).Ahead body := by
  obtain ⟨lead, body, rfl, -, unmarked, aheadAt⟩ := exists_lead text
  exact ⟨lead, body, rfl, aheadAt body unmarked⟩

theorem head_append_ne {c : Char} (hx : x ≠ [] → x.head? ≠ some c)
    (hy : x = [] → y.head? ≠ some c) : (x ++ y).head? ≠ some c := by
  by_cases empty : x = []
  · rw [empty, List.nil_append]
    exact hy empty
  · rw [List.head?_append_of_ne_nil x empty]
    exact hx empty

/-- **A place where markup begins or ends is come to again**, with the same events before it, if
text does not go on there. -/
theorem exists_reads_again (reads : Reads (ofText (before ++ x)) run r) (ahead : r.Ahead x)
    (marked : x.head? = some '<' ∨ before.getLast? = some '>') {x₂ : List Char}
    (ends : EndsText x₂) :
    ∃ run₂ r₂, Reads (ofText (before ++ x₂)) run₂ r₂ ∧ run₂.map (·.2) = run.map (·.2) ∧
      r₂.Ahead x₂ ∧ r₂.opened = r.opened := by
  obtain ⟨lead, body, rfl, unended, unmarked, aheadAt⟩ := exists_lead before
  have marked : x.head? = some '<' ∨ body.getLast? = some '>' := by
    refine marked.imp_right fun last => ?_
    by_cases empty : body = []
    · rw [empty, List.append_nil] at last
      exact absurd (List.mem_of_getLast? last) unended
    · rwa [List.getLast?_append_of_ne_nil _ empty] at last
  rw [List.append_assoc] at reads ⊢
  have ahead₀ : (ofText (lead ++ (body ++ x))).Ahead (body ++ x) := by
    refine aheadAt _ fun none => head_append_ne (fun _ => unmarked none) fun empty mark => ?_
    rcases marked with begins | last
    · cases begins.symm.trans mark
    · rw [empty] at last
      cases last
  have ahead₂ : (ofText (lead ++ (body ++ x₂))).Ahead (body ++ x₂) := by
    refine aheadAt _ fun none => head_append_ne (fun _ => unmarked none) fun _ mark => ?_
    exact absurd (ends _ mark) (by decide)
  -- The text in front of the place is what the run takes.
  obtain ⟨u, z, split, first⟩ := takes_of_reads ahead₀ reads
  obtain ⟨rfl, rfl⟩ := first.eq_of_ahead split ahead marked
  have replaces : Replaces body x x₂ := by
    refine ⟨fun _ => ends, fun empty => .inr ?_⟩
    rcases marked with begins | last
    · rw [empty] at begins
      cases begins
    · exact last
  have start : (ofText (lead ++ (body ++ x₂))).opened = (ofText (lead ++ (body ++ x))).opened := rfl
  obtain ⟨run₂, r₂, reads₂, same, aheadNew⟩ := first.again start ahead₂ replaces
  refine ⟨run₂, r₂, reads₂, same, aheadNew, ?_⟩
  rw [reads₂.opened_eq_foldl, reads.opened_eq_foldl, same, start]

/-! ## Text and constructs by themselves -/

/-- Text is what stands up to the next `<`. -/
theorem exists_of_next_text {t : List Char} (ahead : r.Ahead y) (h : r.next = .event (.text t) r') :
    ∃ x, y = t ++ x ∧ t ≠ [] ∧ (∀ c ∈ t, c ≠ '<') ∧ EndsText x := by
  rcases Reader.begins_cases y with rfl | ⟨s, rfl⟩ | ⟨u, x, rfl, nonempty, free, ends⟩
  · rw [Reader.next_eq_finished ahead] at h
    cases h
  · obtain ⟨r₁, next, -⟩ := Reader.next_of_ahead ahead
    exact absurd rfl (Reader.construct_ne_text (next.symm.trans h))
  · obtain ⟨r₁, next, -⟩ := Reader.yields_text ahead nonempty free ends
    rw [next] at h
    cases h
    exact ⟨x, rfl, nonempty, free, ends⟩

/-- **A construct is read again from its own text**, whatever follows it as long as it is over. -/
theorem yields_again {v : List Char} (ahead : r.Ahead (v ++ x)) (next : r.next = .event e r')
    (construct : ∀ s, e ≠ .text s) (behind : r'.Ahead x) :
    v.head? = some '<' ∧ Closes v x ∧
      ∀ {r₂ : Reader} {y}, r₂.opened = r.opened → r₂.Ahead (v ++ y) → Closes v y →
        r₂.Yields e y := by
  obtain ⟨r₁, text, opened, reads⟩ := Reader.exists_construct ahead next construct
  obtain rfl := Reader.rest_of_ahead ahead next construct behind
  obtain ⟨-, u, whole, closes, again⟩ := Reader.localAt_construct reads
  obtain rfl : v = '<' :: u := by
    rw [whole, ← List.cons_append] at text
    exact List.append_cancel_right text
  refine ⟨rfl, closes_cons_iff.mpr closes, fun {r₂ y} same ahead₂ closes₂ => ?_⟩
  obtain ⟨r₃, next₂, rest, opened₂⟩ := Reader.next_of_ahead ahead₂
  obtain ⟨r₂', reads₂, ahead₂'⟩ :=
    again ((opened₂.trans same).trans opened.symm) rest (closes_cons_iff.mp closes₂)
  exact ⟨r₂', next₂.trans reads₂, ahead₂'⟩

/-! ## Where text may join -/

/-- The events of a run of text: none if there is no text. -/
def textEvents (u : List Char) : List Event := if u = [] then [] else [.text u]

/-- Text up to markup or up to the end is read as one event, if there is any. -/
theorem exists_reads_text {u : List Char} (ahead : r.Ahead (u ++ x)) (free : ∀ c ∈ u, c ≠ '<')
    (ends : EndsText x) :
    ∃ run r', Reads r run r' ∧ run.map (·.2) = textEvents u ∧ r'.Ahead x ∧
      r'.opened = r.opened := by
  by_cases empty : u = []
  · subst empty
    exact ⟨[], r, .nil r, rfl, ahead, rfl⟩
  · obtain ⟨r', next, behind⟩ := Reader.yields_text ahead empty free ends
    refine ⟨_, r', .cons next (.nil r'), ?_, behind, (Reader.keeps_next next).1⟩
    rw [textEvents, if_neg empty]
    rfl

/-- Whether events that take a text can be divided in front of a last run of text: the events before
it take what stands before it, whatever follows. -/
def Divides (r : Reader) (body : List Char) (es : List Event) : Prop :=
  ∃ w u es₀, body = w ++ u ∧ (∀ c ∈ u, c ≠ '<') ∧ es = es₀ ++ textEvents u ∧
    (w = [] → es₀ = []) ∧
    ∀ {r₂ : Reader} {y}, r₂.opened = r.opened → r₂.Ahead (w ++ y) →
      ∃ run₂ r₂', Reads r₂ run₂ r₂' ∧ run₂.map (·.2) = es₀ ∧ r₂'.Ahead y

theorem divides_nil (r : Reader) : Divides r [] [] :=
  ⟨[], [], [], rfl, by simp, rfl, fun _ => rfl,
    fun {r₂ _} _ ahead₂ => ⟨[], r₂, .nil r₂, rfl, ahead₂⟩⟩

/-- In front of text anything may follow. -/
theorem divides_text {es : List Event} {r₁ : Reader} {w t : List Char}
    (first : Takes r es r₁ w (t ++ x)) (nonempty : t ≠ []) (free : ∀ c ∈ t, c ≠ '<') :
    Divides r (w ++ t) (es ++ [.text t]) := by
  refine ⟨w, t, es, rfl, free, by simp [textEvents, nonempty], fun empty => ?_,
    fun {r₂ y} opened ahead₂ => ?_⟩
  · by_contra filled
    exact first.nonempty filled empty
  · -- Text went on there, so whatever follows may stand in its place.
    have replaces : Replaces w (t ++ x) y := by
      obtain ⟨c, u, rfl⟩ := List.exists_cons_of_ne_nil nonempty
      refine ⟨fun ended => ?_, fun empty => nomatch empty⟩
      exact absurd (ended c rfl) (free c List.mem_cons_self)
    exact first.again opened ahead₂ replaces

/-- Behind a construct that is over anything may follow. -/
theorem divides_construct {es : List Event} {r₁ : Reader} {w v : List Char}
    (first : Takes r es r₁ w (v ++ x)) (opened : r₁.opened = es.foldl Event.nest r.opened)
    (next : r₁.next = .event e r') (construct : ∀ s, e ≠ .text s) (behind : r'.Ahead x)
    (ended : x ≠ [] ∨ v.getLast? = some '>') : Divides r (w ++ v) (es ++ [e]) := by
  obtain ⟨tag, closes, again⟩ := yields_again first.ahead next construct behind
  have ended : v.getLast? = some '>' := ended.elim closes.resolve_right id
  have nonempty : v ≠ [] := by
    rintro rfl
    cases tag
  refine ⟨w ++ v, [], es ++ [e], by simp, by simp, by simp [textEvents],
    fun empty => absurd (List.append_eq_nil_iff.mp empty).2 nonempty, fun {r₂ y} same ahead₂ => ?_⟩
  rw [List.append_assoc] at ahead₂
  obtain ⟨run₂, r₃, reads₂, events, ahead₃⟩ :=
    first.again same ahead₂ (replaces_append w nonempty x y)
  have opened₃ : r₃.opened = r₁.opened := by rw [reads₂.opened_eq_foldl, events, opened, same]
  obtain ⟨r₂', next₂, behind⟩ := again opened₃ ahead₃ (.inl ended)
  exact ⟨run₂ ++ [(r₂'.position, e)], r₂', reads₂.append (.cons next₂ (.nil r₂')), by simp [events],
    behind⟩

/-- **Up to markup every run can be divided** in front of its last run of text. -/
theorem divides_of_reads {body : List Char} (ahead₀ : r.Ahead (body ++ x)) (reads : Reads r run r')
    (ahead : r'.Ahead x) (begins : x.head? = some '<') : Divides r body (run.map (·.2)) := by
  rcases List.eq_nil_or_concat' run with rfl | ⟨run, last, rfl⟩
  · -- Nothing has been read, so the markup is where reading began.
    cases reads
    have whole : body ++ x = body ++ x := rfl
    obtain ⟨rfl, -⟩ := (takes_nil ahead₀).eq_of_ahead whole ahead (.inl begins)
    exact divides_nil r
  obtain ⟨r₁, reads₁, next⟩ := reads.exists_of_concat
  obtain ⟨w, z, split, first⟩ := takes_of_reads ahead₀ reads₁
  -- What the last event takes goes up to the markup.
  have stands {v x' : List Char} (rest : z = v ++ x') (second : Takes r₁ [last.2] r' v x') :
      body = w ++ v ∧ x = x' := by
    subst rest
    refine (first.concat second reads₁.opened_eq_foldl).eq_of_ahead ?_ ahead (.inl begins)
    rw [split, List.append_assoc]
  rw [List.map_append, List.map_singleton]
  by_cases isText : ∃ t, last.2 = .text t
  · obtain ⟨t, isText⟩ := isText
    rw [isText] at next stands ⊢
    obtain ⟨x', rfl, nonempty, free, ends⟩ := exists_of_next_text first.ahead next
    obtain ⟨rfl, rfl⟩ := stands rfl (takes_text first.ahead nonempty free ends next)
    exact divides_text first nonempty free
  · obtain ⟨v, x', rfl, second⟩ := takes_of_next first.ahead next
    obtain ⟨rfl, rfl⟩ := stands rfl second
    have filled : x ≠ [] := by
      rintro rfl
      cases begins
    exact divides_construct first reads₁.opened_eq_foldl next (fun s eq => isText ⟨s, eq⟩)
      second.ahead (.inl filled)

/-- **The place where the text in front of markup begins is come to again**, whatever stands there.
If there is nothing before it this must not be a byte order mark. -/
theorem exists_reads_behind (reads : Reads (ofText (before ++ x)) run r) (ahead : r.Ahead x)
    (begins : x.head? = some '<') :
    ∃ front u es, before = front ++ u ∧ (∀ c ∈ u, c ≠ '<') ∧
      run.map (·.2) = es ++ textEvents u ∧ (front = [] → es = []) ∧
      ∀ y, (front = [] → y.head? ≠ some '\uFEFF') →
        ∃ run₂ r₂, Reads (ofText (front ++ y)) run₂ r₂ ∧ run₂.map (·.2) = es ∧ r₂.Ahead y := by
  obtain ⟨lead, body, rfl, -, unmarked, aheadAt⟩ := exists_lead before
  rw [List.append_assoc] at reads
  have ahead₀ : (ofText (lead ++ (body ++ x))).Ahead (body ++ x) := by
    refine aheadAt _ fun none => head_append_ne (fun _ => unmarked none) fun _ mark => ?_
    cases begins.symm.trans mark
  obtain ⟨w, u, es, rfl, free, events, first, again⟩ := divides_of_reads ahead₀ reads ahead begins
  refine ⟨lead ++ w, u, es, by simp, free, events, fun empty => ?_, fun y behind => ?_⟩
  · exact first (List.append_eq_nil_iff.mp empty).2
  · rw [List.append_assoc]
    refine again rfl (aheadAt _ fun none => head_append_ne (fun filled => ?_) fun empty => ?_)
    · rw [← List.head?_append_of_ne_nil w filled]
      exact unmarked none
    · exact behind (by rw [none, empty, List.append_nil])

/-! ## From there on -/

/-- **Readers with the same text ahead and the same elements open read on in the same way** up to
the end. -/
theorem exists_reads_on (ahead : r.Ahead x) (ahead₂ : r₂.Ahead x) (opened : r₂.opened = r.opened)
    (reads : Reads r run r') (ends : r'.next = .finished) :
    ∃ run₂ r₂', Reads r₂ run₂ r₂' ∧ run₂.map (·.2) = run.map (·.2) ∧ r₂'.next = .finished := by
  obtain ⟨v, z, rfl, taken⟩ := takes_of_reads ahead reads
  obtain ⟨run₂, r₂', reads₂, same, aheadLast⟩ := taken.again opened ahead₂ (replaces_self v z)
  exact ⟨run₂, r₂', reads₂, same, next_eq_finished_of_ahead ends taken.ahead aheadLast⟩

end TreeQuery.Markup
