import TreeQuery.Proofs.Markup.Decoding

/-!
# Written characters

The ways to write one character of a text: the character itself, the name of a predefined
character between `&` and `;`, or its code point in decimal or hexadecimal digits.  `decode_written`
says that what was written is read again, however the ways are mixed.

The decoder cuts a text at every `&` and a name at the first `;`.  A reference that was written has
neither within its name, so it is one piece, and letters are decoded one by one.
-/

namespace TreeQuery.Written

open Markup (ReferenceFault decode character codePoint named?)
open Text (pieces byteLength)

/-- The characters that have a name. -/
inductive Predefined where
  | lt | gt | amp | apos | quot

namespace Predefined

/-- The name of a predefined character. -/
def name : Predefined → List Char
  | .lt => ['l', 't']
  | .gt => ['g', 't']
  | .amp => ['a', 'm', 'p']
  | .apos => ['a', 'p', 'o', 's']
  | .quot => ['q', 'u', 'o', 't']

/-- The character that has the name. -/
def char : Predefined → Char
  | .lt => '<'
  | .gt => '>'
  | .amp => '&'
  | .apos => '\''
  | .quot => '"'

end Predefined

/-- A digit of a number in base `base`, which is at most sixteen. -/
structure Digit (base : Nat) where
  /-- What the digit counts. -/
  value : Fin base
  /-- Whether it is written as a capital, if it is a letter. -/
  capital : Bool

namespace Digit

/-- The digits from zero on. -/
def row : List Char :=
  ['0', '1', '2', '3', '4', '5', '6', '7', '8', '9', 'a', 'b', 'c', 'd', 'e', 'f']

/-- The character of a digit. -/
def char {base : Nat} (d : Digit base) : Char :=
  let small := row.getD d.value '0'
  if d.capital then small.toUpper else small

end Digit

/-- The number that digits write, the first of them counting most. -/
def number {base : Nat} (ds : List (Digit base)) : Nat :=
  ds.foldl (fun n d => n * base + d.value) 0

/-- A reference to a character.  Numbers write any character but the null character, in at most
seven decimal or six hexadecimal digits. -/
inductive Reference where
  | predefined (p : Predefined)
  | decimal (ds : List (Digit 10)) (c : Char) (short : ds.length ≤ 7)
    (writes : number ds = c.toNat) (notNull : c.toNat ≠ 0)
  | hexadecimal (ds : List (Digit 16)) (c : Char) (short : ds.length ≤ 6)
    (writes : number ds = c.toNat) (notNull : c.toNat ≠ 0)

namespace Reference

/-- What stands between `&` and `;`. -/
def name : Reference → List Char
  | .predefined p => p.name
  | .decimal ds _ _ _ _ => '#' :: ds.map Digit.char
  | .hexadecimal ds _ _ _ _ => '#' :: 'x' :: ds.map Digit.char

/-- The character that a reference stands for. -/
def char : Reference → Char
  | .predefined p => p.char
  | .decimal _ c _ _ _ => c
  | .hexadecimal _ c _ _ _ => c

end Reference

/-- A character of a text, as it is written. -/
inductive Letter where
  /-- A character that stands for itself. -/
  | plain (c : Char) (free : c ≠ '<' ∧ c ≠ '&')
  /-- A reference to a character. -/
  | reference (r : Reference)

namespace Letter

/-- The character that is written. -/
def char : Letter → Char
  | .plain c _ => c
  | .reference r => r.char

/-- How the character is written. -/
def written : Letter → List Char
  | .plain c _ => [c]
  | .reference r => '&' :: (r.name ++ [';'])

end Letter

/-- How a text is written, letter by letter. -/
def written (ls : List Letter) : List Char := ls.flatMap Letter.written

/-- The text that is written. -/
def chars (ls : List Letter) : List Char := ls.map Letter.char

/-! ## Numbers -/

namespace Digit

theorem digitValue_decimal (d : Digit 10) : digitValue? 10 d.char = some d.value := by
  have all : ∀ (v : Fin 10) (capital : Bool),
      digitValue? 10 (Digit.char ⟨v, capital⟩) = some v.val := by decide
  exact all d.value d.capital

theorem digitValue_hexadecimal (d : Digit 16) : digitValue? 16 d.char = some d.value := by
  have all : ∀ (v : Fin 16) (capital : Bool),
      digitValue? 16 (Digit.char ⟨v, capital⟩) = some v.val := by decide
  exact all d.value d.capital

/-- A digit takes one byte, and is none of the characters that cut a text or tell a base. -/
theorem char_free {base : Nat} (h : base ≤ 16) (d : Digit base) :
    d.char.utf8Size = 1 ∧ d.char ≠ '<' ∧ d.char ≠ '&' ∧ d.char ≠ ';' ∧ d.char ≠ 'x' := by
  have all : ∀ (v : Fin 16) (capital : Bool),
      (Digit.char ⟨v, capital⟩).utf8Size = 1 ∧ Digit.char ⟨v, capital⟩ ≠ '<' ∧
        Digit.char ⟨v, capital⟩ ≠ '&' ∧ Digit.char ⟨v, capital⟩ ≠ ';' ∧
        Digit.char ⟨v, capital⟩ ≠ 'x' := by decide
  exact all (d.value.castLE h) d.capital

end Digit

theorem byteLength_digits {base : Nat} (h : base ≤ 16) (ds : List (Digit base)) :
    byteLength (ds.map Digit.char) = ds.length := by
  have from_any : ∀ n, (ds.map Digit.char).foldl (fun n c => n + c.utf8Size) n =
      n + ds.length := by
    induction ds with
    | nil => exact fun n => rfl
    | cons d ds ih =>
      intro n
      rw [List.map_cons, List.foldl_cons, ih, (d.char_free h).1, List.length_cons]
      omega
  rw [byteLength, from_any, Nat.zero_add]

/-- Digits are read as the number that they write. -/
theorem codePoint_digits {base : Nat} (fault : Nat → ReferenceFault)
    (reads : ∀ d : Digit base, digitValue? base d.char = some d.value)
    (ds : List (Digit base)) : codePoint base fault (ds.map Digit.char) = .ok (number ds) := by
  rw [codePoint, number]
  -- What has been read so far counts more than any digit that follows.
  generalize 0 = n
  induction ds generalizing n with
  | nil => rfl
  | cons d ds ih =>
    rw [List.map_cons, List.foldlM_cons, reads d]
    exact ih (n * base + d.value)

/-! ## References -/

namespace Reference

theorem character_decimal (first last : Nat) {s : List Char} (h : s.head? ≠ some 'x') :
    character first last ('#' :: s) =
      if 7 < byteLength s then .error .longDecimal
      else codePoint 10 .notDecimal s >>= fun n =>
        if n = 0 then .error (.null first last)
        else if n < 0xD800 || (0xDFFF < n && n < 0x110000) then .ok (Char.ofNat n)
        else .error (.noCharacter n) := by
  rw [character]
  intro digits eq
  cases eq
  exact h rfl

/-- The code point of a character is none of the numbers that are refused. -/
theorem ofCode_toNat {c : Char} (notNull : c.toNat ≠ 0) (first last : Nat) :
    (if c.toNat = 0 then .error (.null first last)
      else if c.toNat < 0xD800 || (0xDFFF < c.toNat && c.toNat < 0x110000) then
        .ok (Char.ofNat c.toNat)
      else .error (.noCharacter c.toNat) : Except ReferenceFault Char) = .ok c := by
  have valid : c.toNat < 0xD800 ∨ 0xDFFF < c.toNat ∧ c.toNat < 0x110000 := c.valid
  rw [if_neg notNull, if_pos (by simpa using valid), Char.ofNat_toNat]

/-- **A reference stands for its character**, wherever it is written. -/
theorem character_name (r : Reference) (first last : Nat) :
    character first last r.name = .ok r.char := by
  cases r with
  | predefined p => cases p <;> rfl
  | decimal ds c short writes notNull =>
    have noBase : (ds.map Digit.char).head? ≠ some 'x' := by
      cases ds with
      | nil => simp
      | cons d ds => simpa using (d.char_free (by decide)).2.2.2.2
    have fits : ¬ 7 < byteLength (ds.map Digit.char) := by
      rw [byteLength_digits (by decide)]
      omega
    rw [name, character_decimal first last noBase, if_neg fits,
      codePoint_digits _ Digit.digitValue_decimal, writes]
    exact ofCode_toNat notNull first last
  | hexadecimal ds c short writes notNull =>
    have fits : ¬ 6 < byteLength (ds.map Digit.char) := by
      rw [byteLength_digits (by decide)]
      omega
    rw [name, character, if_neg fits, codePoint_digits _ Digit.digitValue_hexadecimal, writes]
    exact ofCode_toNat notNull first last

/-- Nothing within the name of a reference ends it, or begins another one. -/
theorem name_free (r : Reference) : ∀ c ∈ r.name, c ≠ '<' ∧ c ≠ '&' ∧ c ≠ ';' := by
  have digits : ∀ {base : Nat}, base ≤ 16 → ∀ ds : List (Digit base),
      ∀ c ∈ ds.map Digit.char, c ≠ '<' ∧ c ≠ '&' ∧ c ≠ ';' := by
    intro base small ds c hc
    obtain ⟨d, -, rfl⟩ := List.mem_map.mp hc
    obtain ⟨-, h₁, h₂, h₃, -⟩ := d.char_free small
    exact ⟨h₁, h₂, h₃⟩
  cases r with
  | predefined p => cases p <;> simp [name, Predefined.name]
  | decimal ds c short writes notNull =>
    rw [name, List.forall_mem_cons]
    exact ⟨by decide, digits (by decide) ds⟩
  | hexadecimal ds c short writes notNull =>
    rw [name, List.forall_mem_cons, List.forall_mem_cons]
    exact ⟨by decide, by decide, digits (by decide) ds⟩

end Reference

/-! ## Texts -/

/-- A written text has no markup in it. -/
theorem ne_of_mem_written {ls : List Letter} {c : Char} (h : c ∈ written ls) : c ≠ '<' := by
  obtain ⟨l, -, hc⟩ := List.mem_flatMap.mp h
  cases l with
  | plain d free =>
    rw [List.mem_singleton.mp hc]
    exact free.1
  | reference r =>
    rcases List.mem_cons.mp hc with rfl | hc
    · decide
    · rcases List.mem_append.mp hc with hc | hc
      · exact (r.name_free c hc).1
      · rw [List.mem_singleton.mp hc]
        decide

/-- A letter is decoded to its character. -/
theorem decode_letter (l : Letter) : decode l.written = .ok [l.char] := by
  cases l with
  | plain c free =>
    exact Markup.decode_of_free fun d hd => List.mem_singleton.mp hd ▸ free.2
  | reference r =>
    -- The piece behind the `&` is the name and the `;`.
    have uncut : ∀ c ∈ r.name ++ [';'], ¬ (c == '&') = true := by
      intro c hc
      rcases List.mem_append.mp hc with hc | hc
      · simpa using (r.name_free c hc).2.1
      · rw [List.mem_singleton.mp hc]
        decide
    have piece : pieces (· == '&') (r.name ++ [';']) = [r.name ++ [';']] :=
      Text.pieces_of_neg uncut
    have unended : ¬ [] ++ [';'] <:+: r.name := fun inside =>
      (r.name_free ';' (inside.subset (by simp))).2.2 rfl
    have ended : Text.cutAt? [';'] (r.name ++ [';']) = some (r.name, []) :=
      Text.cutAt_append (by simp) unended []
    have cut : pieces (· == '&') (Letter.reference r).written = [[], r.name ++ [';']] :=
      (Text.pieces_cons_of_pos (by decide) _).trans (congrArg _ piece)
    exact Markup.decode_eq_ok_iff.mpr
      ⟨[], _, _, cut, .cons ended r.character_name Markup.standsFor_nil, rfl⟩

/-- **A text is decoded as it was written.** -/
theorem decode_written (ls : List Letter) : decode (written ls) = .ok (chars ls) := by
  induction ls with
  | nil => rfl
  | cons l ls ih => exact Markup.decode_append (decode_letter l) ih

end TreeQuery.Written
