import TreeQuery.Markup.Reference
import TreeQuery.Proofs.Text.Pieces

/-!
# Decoding runs of text

Whether a run can be decoded, and to what, is told by its pieces alone: positions are asked for by
faults only (`StandsFor`).  So a run may be divided wherever both parts can be decoded by themselves
(`decode_append`), and every text can be written as a run in which the characters that markup begins
and ends with have names (`decode_escape`).
-/

namespace TreeQuery.Markup

open Text (pieces byteLength)

variable {u v a b : List Char} {piece last : List Char} {ps later : List (List Char)}

/-- The character of a reference does not depend on its place. -/
theorem character_at {first last : Nat} {name : List Char} {c : Char}
    (h : character first last name = .ok c) (first' last' : Nat) :
    character first' last' name = .ok c := by
  -- Only of the null character the place is told.
  have ofCode : ∀ code : Except ReferenceFault Nat,
      (code >>= fun n => if n = 0 then .error (.null first last)
        else if n < 0xD800 || (0xDFFF < n && n < 0x110000) then .ok (Char.ofNat n)
        else .error (.noCharacter n)) = .ok c →
      (code >>= fun n => if n = 0 then .error (.null first' last')
        else if n < 0xD800 || (0xDFFF < n && n < 0x110000) then .ok (Char.ofNat n)
        else .error (.noCharacter n)) = .ok c := by
    intro code h
    cases code with
    | error fault => cases h
    | ok n =>
      by_cases null : n = 0
      · cases (if_pos null).symm.trans h
      · exact (if_neg null).trans ((if_neg null).symm.trans h)
  simp only [character] at h ⊢
  split at h
  · by_cases long : 6 < byteLength ‹List Char›
    · cases (if_pos long).symm.trans h
    · exact (if_neg long).trans (ofCode _ ((if_neg long).symm.trans h))
  · by_cases long : 7 < byteLength ‹List Char›
    · cases (if_pos long).symm.trans h
    · exact (if_neg long).trans (ofCode _ ((if_neg long).symm.trans h))
  · cases found : named? name with
    | none =>
      rw [found] at h
      cases h
    | some d =>
      rw [found] at h
      exact h

/-- Whether pieces that each follow an `&` stand for a text, wherever they are read. -/
def StandsFor (ps : List (List Char)) (t : List Char) : Prop :=
  ∀ total first done, decodePieces total first done ps = .ok (done.reverse ++ t)

theorem standsFor_nil : StandsFor [] [] := fun _ _ done => by simp [decodePieces]

theorem eq_nil_of_standsFor_nil {t : List Char} (h : StandsFor [] t) : t = [] := by
  have once := h 0 0 []
  cases once
  rfl

theorem StandsFor.cons {name literal t : List Char} {c : Char}
    (cut : Text.cutAt? [';'] piece = some (name, literal))
    (named : ∀ first last, character first last name = .ok c) (h : StandsFor ps t) :
    StandsFor (piece :: ps) (c :: (literal ++ t)) := by
  intro total first done
  simp only [decodePieces, cut, named]
  rw [h _ _ _, List.reverseAux_eq]
  simp

/-- What can be decoded once stands for its text everywhere. -/
theorem exists_standsFor {total first : Nat} {done w : List Char}
    (h : decodePieces total first done ps = .ok w) :
    ∃ t, w = done.reverse ++ t ∧ StandsFor ps t := by
  induction ps generalizing first done with
  | nil =>
    cases h
    exact ⟨[], (List.append_nil _).symm, standsFor_nil⟩
  | cons piece ps ih =>
    rw [decodePieces] at h
    cases cut : Text.cutAt? [';'] piece with
    | none =>
      rw [cut] at h
      cases h
    | some found =>
      obtain ⟨name, literal⟩ := found
      simp only [cut] at h
      split at h
      · cases h
      · next c named =>
        obtain ⟨t, rfl, stands⟩ := ih h
        refine ⟨c :: (literal ++ t), by simp [List.reverseAux_eq], ?_⟩
        exact .cons cut (character_at named) stands

theorem exists_of_standsFor_cons {t : List Char} (h : StandsFor (piece :: ps) t) :
    ∃ name literal c t', Text.cutAt? [';'] piece = some (name, literal) ∧
      (∀ first last, character first last name = .ok c) ∧ StandsFor ps t' ∧
      t = c :: (literal ++ t') := by
  have once := h 0 0 []
  rw [decodePieces] at once
  cases cut : Text.cutAt? [';'] piece with
  | none =>
    rw [cut] at once
    cases once
  | some found =>
    obtain ⟨name, literal⟩ := found
    simp only [cut] at once
    split at once
    · cases once
    · next c named =>
      obtain ⟨t', whole, stands⟩ := exists_standsFor once
      refine ⟨name, literal, c, t', rfl, character_at named, stands, ?_⟩
      simpa [List.reverseAux_eq] using whole

/-- Literal text may be added to the last piece. -/
theorem StandsFor.append {first : List Char} (h : StandsFor (ps ++ [last]) a)
    (h' : StandsFor later b) :
    StandsFor (ps ++ (last ++ first) :: later) (a ++ (first ++ b)) := by
  induction ps generalizing a with
  | nil =>
    obtain ⟨name, literal, c, t, cut, named, nothing, rfl⟩ := exists_of_standsFor_cons h
    obtain rfl := eq_nil_of_standsFor_nil nothing
    obtain ⟨rfl, again⟩ := Text.cutAt_eq_some (List.cons_ne_nil _ _) cut
    have longer : Text.cutAt? [';'] (name ++ ([';'] ++ literal) ++ first) =
        some (name, literal ++ first) := by
      simpa using again (literal ++ first)
    have whole := StandsFor.cons longer named h'
    simpa using whole
  | cons piece ps ih =>
    obtain ⟨name, literal, c, t, cut, named, stands, rfl⟩ := exists_of_standsFor_cons h
    have whole := StandsFor.cons cut named (ih stands)
    simpa using whole

/-- A run is its literal beginning and its pieces. -/
theorem decode_eq_ok_iff {run w : List Char} :
    decode run = .ok w ↔ ∃ literal ps t, pieces (· == '&') run = literal :: ps ∧ StandsFor ps t ∧
      w = literal ++ t := by
  obtain ⟨literal, ps, cut⟩ := List.exists_cons_of_ne_nil (Text.pieces_ne_nil (· == '&') run)
  rw [decode, cut]
  constructor
  · intro h
    obtain ⟨t, whole, stands⟩ := exists_standsFor h
    exact ⟨literal, ps, t, rfl, stands, by simpa using whole⟩
  · rintro ⟨literal, ps, t, same, stands, rfl⟩
    cases same
    simp [stands _ _ _]

/-- A run without references stands for itself. -/
theorem decode_of_free {s : List Char} (free : ∀ c ∈ s, c ≠ '&') : decode s = .ok s := by
  have cut : pieces (· == '&') s = [s] :=
    Text.pieces_of_neg fun c hc => by simpa using free c hc
  exact decode_eq_ok_iff.mpr ⟨s, [], [], cut, standsFor_nil, (List.append_nil s).symm⟩

/-- **A run may be divided** wherever both parts can be decoded by themselves. -/
theorem decode_append (hu : decode u = .ok a) (hv : decode v = .ok b) :
    decode (u ++ v) = .ok (a ++ b) := by
  obtain ⟨literal, ps, t, cut, stands, rfl⟩ := decode_eq_ok_iff.mp hu
  obtain ⟨first, later, t', cut', stands', rfl⟩ := decode_eq_ok_iff.mp hv
  obtain ⟨earlier, last, hu, huv⟩ := Text.exists_pieces_append u cut'
  rw [hu] at cut
  rw [decode_eq_ok_iff, huv]
  rcases earlier with _ | ⟨piece, earlier⟩
  · cases cut
    obtain rfl := eq_nil_of_standsFor_nil stands
    exact ⟨literal ++ first, later, t', rfl, stands', by simp⟩
  · obtain ⟨rfl, rfl⟩ := List.cons_eq_cons.mp cut
    exact ⟨piece, _, _, rfl, stands.append stands', List.append_assoc _ _ _⟩

/-- A last piece that goes on behind its reference may be one character shorter. -/
theorem StandsFor.of_concat {c : Char} (other : c ≠ ';') {t : List Char}
    (h : StandsFor (ps ++ [last ++ [c]]) t) : ∃ a, StandsFor (ps ++ [last]) a ∧ t = a ++ [c] := by
  induction ps generalizing t with
  | nil =>
    obtain ⟨name, literal, d, t, cut, named, nothing, rfl⟩ := exists_of_standsFor_cons h
    obtain rfl := eq_nil_of_standsFor_nil nothing
    obtain ⟨whole, again⟩ := Text.cutAt_eq_some (List.cons_ne_nil _ _) cut
    -- The reference ends before the character.
    obtain ⟨rest, rfl, rfl⟩ : ∃ rest, literal = rest ++ [c] ∧ last = name ++ ([';'] ++ rest) := by
      rcases List.append_eq_append_iff.mp whole with ⟨m, -, tail⟩ | ⟨m, front, tail⟩
      · rcases m with _ | ⟨d, m⟩
        · exact absurd (List.cons.inj tail).1 other
        · simp at tail
      · rcases m with _ | ⟨d, m⟩
        · exact absurd (List.cons.inj tail).1.symm other
        · obtain ⟨rfl, rest⟩ := List.cons.inj tail
          exact ⟨m, rest, front⟩
    exact ⟨_, .cons (again rest) named standsFor_nil, by simp⟩
  | cons piece ps ih =>
    obtain ⟨name, literal, d, t, cut, named, stands, rfl⟩ := exists_of_standsFor_cons h
    obtain ⟨a, stands', rfl⟩ := ih stands
    exact ⟨_, .cons cut named stands', by simp⟩

/-- **The last character of a run stands for itself**, unless it begins or ends a reference. -/
theorem exists_of_decode_concat {c : Char} (other : c ≠ '&' ∧ c ≠ ';') {w : List Char}
    (h : decode (u ++ [c]) = .ok w) : ∃ a, decode u = .ok a ∧ w = a ++ [c] := by
  have cut : pieces (· == '&') [c] = [[c]] := Text.pieces_of_neg (by simpa using other.1)
  obtain ⟨earlier, last, hu, whole⟩ := Text.exists_pieces_append u cut
  obtain ⟨literal, ps, t, parts, stands, rfl⟩ := decode_eq_ok_iff.mp h
  rw [whole] at parts
  rcases earlier with _ | ⟨_, earlier⟩
  · cases parts
    obtain rfl := eq_nil_of_standsFor_nil stands
    exact ⟨last, decode_eq_ok_iff.mpr ⟨last, [], [], hu, standsFor_nil, by simp⟩, by simp⟩
  · cases parts
    obtain ⟨a, stands', rfl⟩ := stands.of_concat other.2
    exact ⟨literal ++ a, decode_eq_ok_iff.mpr ⟨literal, _, a, hu, stands', rfl⟩, by simp⟩

/-- What stands first in a run, if it is no reference, stands first in what it is decoded to. -/
theorem head_of_decode {c : Char} {s w : List Char} (plain : c ≠ '&')
    (h : decode (c :: s) = .ok w) : w.head? = some c := by
  obtain ⟨literal, ps, t, cut, -, rfl⟩ := decode_eq_ok_iff.mp h
  obtain ⟨piece, others, hs⟩ := List.exists_cons_of_ne_nil (Text.pieces_ne_nil (· == '&') s)
  rw [Text.pieces_cons_of_neg (by simpa using plain) hs] at cut
  cases cut
  rfl

/-! ## Naming characters -/

/-- How a character is written in a run if those that markup begins and ends with are named. -/
def escapeChar (c : Char) : List Char :=
  if c = '&' then ['&', 'a', 'm', 'p', ';']
  else if c = '<' then ['&', 'l', 't', ';']
  else if c = '>' then ['&', 'g', 't', ';']
  else [c]

/-- How a text is written as a run, character by character. -/
def escape (s : List Char) : List Char := s.flatMap escapeChar

theorem ne_of_mem_escape {s : List Char} {c : Char} (h : c ∈ escape s) : c ≠ '<' := by
  obtain ⟨d, -, hc⟩ := List.mem_flatMap.mp h
  rintro rfl
  by_cases amp : d = '&'
  · subst amp
    exact absurd hc (by decide)
  by_cases lt : d = '<'
  · subst lt
    exact absurd hc (by decide)
  by_cases gt : d = '>'
  · subst gt
    exact absurd hc (by decide)
  rw [escapeChar, if_neg amp, if_neg lt, if_neg gt, List.mem_singleton] at hc
  exact lt hc.symm

theorem decode_escapeChar (c : Char) : decode (escapeChar c) = .ok [c] := by
  by_cases amp : c = '&'
  · subst amp
    rfl
  by_cases lt : c = '<'
  · subst lt
    rfl
  by_cases gt : c = '>'
  · subst gt
    rfl
  rw [escapeChar, if_neg amp, if_neg lt, if_neg gt]
  exact decode_of_free fun d hd => List.mem_singleton.mp hd ▸ amp

/-- **A text is decoded from the run that names its characters.** -/
theorem decode_escape (s : List Char) : decode (escape s) = .ok s := by
  induction s with
  | nil => rfl
  | cons c s ih => exact decode_append (decode_escapeChar c) ih

end TreeQuery.Markup
