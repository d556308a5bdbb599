import JarLaunch.Text.Utf8
import Mathlib.Algebra.GroupWithZero.Nat

/-! Reading bytes as UTF-8, byte by byte. The bytes of a character are read as that character, from
wherever no character is under way; so a text that was encoded is read back. A character under way
takes continuation bytes only and always comes to a scalar value beyond ASCII, so the ASCII
characters that are read are the ASCII bytes that were there. -/
namespace JarLaunch.Utf8

section
variable {b : UInt8} {p : Begun} {found : List Piece} {v n : Nat}

theorem opening_eq (b : UInt8) :
    opening b =
      if b.toNat < 0x80 then .whole (Char.ofNat b.toNat)
      else if b.toNat < 0xC2 then .stray
      else if b.toNat < 0xE0 then .begun ⟨1, 0x80, 0xBF, b.toNat - 0xC0, [b]⟩
      else if b.toNat < 0xF0 then
        .begun ⟨2, if b.toNat = 0xE0 then 0xA0 else 0x80, if b.toNat = 0xED then 0x9F else 0xBF,
          b.toNat - 0xE0, [b]⟩
      else if b.toNat < 0xF5 then
        .begun ⟨3, if b.toNat = 0xF0 then 0x90 else 0x80, if b.toNat = 0xF4 then 0x8F else 0xBF,
          b.toNat - 0xF0, [b]⟩
      else .stray := by
  simp only [opening, UInt8.lt_iff_toNat_lt, ← UInt8.toNat_inj]
  rfl

theorem accepts_iff : p.accepts b ↔ p.low.toNat ≤ b.toNat ∧ b.toNat ≤ p.high.toNat := by
  simp [Begun.accepts, UInt8.le_iff_toNat_le]

theorem feed_onward (accepted : p.accepts b) (owes : 1 < p.owed) :
    Scan.feed ⟨found, some p⟩ b = ⟨found, some (p.push b)⟩ := by
  have more : (p.push b).owed ≠ 0 := by simp [Begun.push]; omega
  simp [Scan.feed, accepted, more]

theorem feed_last (accepted : p.accepts b) (owes : p.owed = 1) :
    Scan.feed ⟨found, some p⟩ b = ⟨.char (Char.ofNat (p.push b).code) :: found, none⟩ := by
  have done : (p.push b).owed = 0 := by simp [Begun.push, owes]
  simp [Scan.feed, accepted, done]

/-- The continuation byte that carries the last six bits of a number. -/
def sixBits (v : Nat) : UInt8 := UInt8.ofNat (v % 64 + 0x80)

def continuation (v : Nat) : Nat → List UInt8
  | 0 => [sixBits v]
  | n + 1 => sixBits (v / 64 ^ (n + 1)) :: continuation v n

theorem toNat_sixBits (v : Nat) : (sixBits v).toNat = v % 64 + 0x80 := by
  simp [sixBits]
  omega

theorem push_sixBits (code : p.code = v / 64) : (p.push (sixBits v)).code = v := by
  simp only [Begun.push, toNat_sixBits, code]
  omega

theorem push_accepts (p : Begun) (b : UInt8) (v : Nat) : (p.push b).accepts (sixBits v) := by
  rw [accepts_iff, toNat_sixBits]
  simp [Begun.push]
  omega

/-- A character under way is finished by its continuation bytes. -/
theorem foldl_continuation (owes : p.owed = n + 1) (code : p.code = v / 64 ^ (n + 1))
    (accepted : p.accepts (sixBits (v / 64 ^ n))) :
    (continuation v n).foldl Scan.feed ⟨found, some p⟩ = ⟨.char (Char.ofNat v) :: found, none⟩ := by
  induction n generalizing p with
  | zero =>
    simp only [Nat.pow_zero, Nat.div_one] at accepted
    rw [continuation, List.foldl_cons, List.foldl_nil, feed_last accepted owes, push_sixBits code]
  | succ n ih =>
    rw [continuation, List.foldl_cons, feed_onward accepted (by omega)]
    refine ih ?_ (push_sixBits ?_) (push_accepts p _ _)
    · simp [Begun.push, owes]
    · rw [code, Nat.div_div_eq_div_mul, ← Nat.pow_succ]

end

theorem encodeChar_eq (c : Char) :
    String.utf8EncodeChar c =
      if c.toNat < 0x80 then [UInt8.ofNat c.toNat]
      else if c.toNat < 0x800 then UInt8.ofNat (c.toNat / 64 + 0xC0) :: continuation c.toNat 0
      else if c.toNat < 0x10000 then UInt8.ofNat (c.toNat / 64 ^ 2 + 0xE0) :: continuation c.toNat 1
      else UInt8.ofNat (c.toNat / 64 ^ 3 + 0xF0) :: continuation c.toNat 2 := by
  have range : c.toNat.isValidChar := c.valid
  have same : c.val.toNat = c.toNat := rfl
  unfold String.utf8EncodeChar
  simp only [same, continuation, sixBits, Nat.reduceAdd, Nat.reducePow]
  generalize c.toNat = v at range
  rcases Nat.lt_or_ge v 0x80 with one | notOne
  · rw [if_pos (Nat.le_of_lt_succ one), if_pos one]
  · rw [if_neg (by omega : ¬ v ≤ 127), if_neg (Nat.not_lt.mpr notOne)]
    rcases Nat.lt_or_ge v 0x800 with two | notTwo
    · have small : v / 64 % 32 = v / 64 := by omega
      rw [if_pos (Nat.le_of_lt_succ two), if_pos two, small]
    · rw [if_neg (by omega : ¬ v ≤ 2047), if_neg (Nat.not_lt.mpr notTwo)]
      rcases Nat.lt_or_ge v 0x10000 with three | notThree
      · have small : v / 4096 % 16 = v / 4096 := by omega
        rw [if_pos (Nat.le_of_lt_succ three), if_pos three, small]
      · have small : v / 262144 % 8 = v / 262144 := by
          have top : v < 0x110000 := by
            rcases range with low | high <;> omega
          omega
        rw [if_neg (by omega : ¬ v ≤ 65535), if_neg (Nat.not_lt.mpr notThree), small]

theorem foldl_begun {found : List Piece} {b : UInt8} {p : Begun} {v n : Nat}
    (opens : opening b = .begun p) (owes : p.owed = n + 1) (code : p.code = v / 64 ^ (n + 1))
    (accepted : p.accepts (sixBits (v / 64 ^ n))) :
    (b :: continuation v n).foldl Scan.feed ⟨found, none⟩ =
      ⟨.char (Char.ofNat v) :: found, none⟩ := by
  have entered : Scan.feed ⟨found, none⟩ b = ⟨found, some p⟩ := by
    simp only [Scan.feed, Scan.enter, opens]
  rw [List.foldl_cons, entered, foldl_continuation owes code accepted]

section
variable {v : Nat} (found : List Piece)

theorem foldl_two (low : 0x80 ≤ v) (high : v < 0x800) :
    (UInt8.ofNat (v / 64 + 0xC0) :: continuation v 0).foldl Scan.feed ⟨found, none⟩ =
      ⟨.char (Char.ofNat v) :: found, none⟩ := by
  have byte : (UInt8.ofNat (v / 64 + 0xC0)).toNat = v / 64 + 0xC0 :=
    UInt8.toNat_ofNat_of_lt' (show _ < 256 by omega)
  generalize UInt8.ofNat (v / 64 + 0xC0) = b at byte
  apply foldl_begun (p := ⟨1, 0x80, 0xBF, v / 64, [b]⟩)
  · rw [opening_eq, byte, if_neg (by omega), if_neg (by omega), if_pos (by omega)]
    simp
  · rfl
  · simp
  · rw [accepts_iff, toNat_sixBits]
    simp
    omega

theorem foldl_three (low : 0x800 ≤ v) (high : v < 0x10000) (range : v.isValidChar) :
    (UInt8.ofNat (v / 64 ^ 2 + 0xE0) :: continuation v 1).foldl Scan.feed ⟨found, none⟩ =
      ⟨.char (Char.ofNat v) :: found, none⟩ := by
  have byte : (UInt8.ofNat (v / 64 ^ 2 + 0xE0)).toNat = v / 64 ^ 2 + 0xE0 :=
    UInt8.toNat_ofNat_of_lt' (show _ < 256 by omega)
  generalize UInt8.ofNat (v / 64 ^ 2 + 0xE0) = b at byte
  apply foldl_begun (p := ⟨2, if v / 64 ^ 2 = 0 then 0xA0 else 0x80,
    if v / 64 ^ 2 = 0xD then 0x9F else 0xBF, v / 64 ^ 2, [b]⟩)
  · rw [opening_eq, byte, if_neg (by omega), if_neg (by omega), if_neg (by omega),
      if_pos (by omega)]
    simp
  · rfl
  · rfl
  · rw [accepts_iff, toNat_sixBits]
    rcases range with below | above <;> constructor <;> dsimp only <;> split <;> simp <;> omega

theorem foldl_four (low : 0x10000 ≤ v) (high : v < 0x110000) :
    (UInt8.ofNat (v / 64 ^ 3 + 0xF0) :: continuation v 2).foldl Scan.feed ⟨found, none⟩ =
      ⟨.char (Char.ofNat v) :: found, none⟩ := by
  have byte : (UInt8.ofNat (v / 64 ^ 3 + 0xF0)).toNat = v / 64 ^ 3 + 0xF0 :=
    UInt8.toNat_ofNat_of_lt' (show _ < 256 by omega)
  generalize UInt8.ofNat (v / 64 ^ 3 + 0xF0) = b at byte
  apply foldl_begun (p := ⟨3, if v / 64 ^ 3 = 0 then 0x90 else 0x80,
    if v / 64 ^ 3 = 4 then 0x8F else 0xBF, v / 64 ^ 3, [b]⟩)
  · rw [opening_eq, byte, if_neg (by omega), if_neg (by omega), if_neg (by omega),
      if_neg (by omega), if_pos (by omega)]
    simp
  · rfl
  · rfl
  · rw [accepts_iff, toNat_sixBits]
    constructor <;> dsimp only <;> split <;> simp <;> omega

end

theorem foldl_encodeChar (found : List Piece) (c : Char) :
    (String.utf8EncodeChar c).foldl Scan.feed ⟨found, none⟩ = ⟨.char c :: found, none⟩ := by
  have range : c.toNat.isValidChar := c.valid
  have again : Char.ofNat c.toNat = c := Char.ofNat_toNat c
  rw [encodeChar_eq]
  generalize c.toNat = v at range again
  subst c
  split
  next one =>
    have byte : (UInt8.ofNat v).toNat = v := UInt8.toNat_ofNat_of_lt' (show _ < 256 by omega)
    rw [List.foldl_cons, List.foldl_nil, Scan.feed, Scan.enter, opening_eq, byte, if_pos one]
  next notOne =>
    split
    next two => exact foldl_two found (by omega) two
    next notTwo =>
      split
      next three => exact foldl_three found (by omega) three range
      next notThree =>
        have top : v < 0x110000 := by
          rcases range with low | high <;> omega
        exact foldl_four found (by omega) top

theorem foldl_encode (found : List Piece) (cs : List Char) :
    (encode cs).foldl Scan.feed ⟨found, none⟩ = ⟨(cs.map .char).reverse ++ found, none⟩ := by
  induction cs generalizing found with
  | nil => rfl
  | cons c cs ih =>
    rw [encode, List.flatMap_cons, List.foldl_append, foldl_encodeChar, ← encode, ih]
    simp

theorem pieces_encode (cs : List Char) : pieces (encode cs) = cs.map .char := by
  rw [pieces, Scan.start, foldl_encode]
  simp [Scan.close]

/-- An encoded text is read back whole. -/
theorem decode_encode (cs : List Char) : decode (encode cs) = cs := by
  rw [decode, pieces_encode, List.map_map]
  exact List.map_id cs

def Begun.Leads (p : Begun) (v : Nat) : Prop :=
  p.code * 64 + (p.low.toNat - 0x80) ≤ v / 64 ^ (p.owed - 1) ∧
    v / 64 ^ (p.owed - 1) ≤ p.code * 64 + (p.high.toNat - 0x80)

/-- A character under way lacks some bytes, none of them ASCII, and with any that it takes it comes
to a scalar value beyond ASCII. -/
structure Begun.Sound (p : Begun) : Prop where
  owes : 0 < p.owed
  low : 0x80 ≤ p.low.toNat
  scalar : ∀ v, p.Leads v → 0x80 ≤ v ∧ v.isValidChar

theorem opening_sound {b : UInt8} {p : Begun} (opens : opening b = .begun p) : p.Sound := by
  rw [opening_eq] at opens
  split at opens
  · simp at opens
  split at opens
  · simp at opens
  split at opens
  · obtain rfl := Opening.begun.inj opens
    refine ⟨by simp, by simp, fun v leads => ?_⟩
    simp only [Begun.Leads, Nat.isValidChar] at leads ⊢
    simp at leads
    omega
  split at opens
  · obtain rfl := Opening.begun.inj opens
    refine ⟨by simp, by dsimp only; split <;> simp, fun v leads => ?_⟩
    simp only [Begun.Leads, Nat.isValidChar] at leads ⊢
    by_cases first : b.toNat = 0xE0 <;> by_cases last : b.toNat = 0xED <;>
      simp [first, last] at leads <;> omega
  split at opens
  · obtain rfl := Opening.begun.inj opens
    refine ⟨by simp, by dsimp only; split <;> simp, fun v leads => ?_⟩
    simp only [Begun.Leads, Nat.isValidChar] at leads ⊢
    by_cases first : b.toNat = 0xF0 <;> by_cases last : b.toNat = 0xF4 <;>
      simp [first, last] at leads <;> omega
  · simp at opens

theorem Begun.Sound.push {p : Begun} {b : UInt8} (sound : p.Sound) (accepted : p.accepts b)
    (owes : 1 < p.owed) : (p.push b).Sound := by
  rw [accepts_iff] at accepted
  refine ⟨by simp [Begun.push]; omega, by simp [Begun.push], fun v leads => sound.scalar v ?_⟩
  have shorter : p.owed - 1 = p.owed - 1 - 1 + 1 := by omega
  simp [Begun.Leads, Begun.push] at leads
  rw [Begun.Leads, shorter, Nat.pow_succ, ← Nat.div_div_eq_div_mul]
  have low := sound.low
  omega

theorem Begun.Sound.last {p : Begun} {b : UInt8} (sound : p.Sound) (accepted : p.accepts b)
    (owes : p.owed = 1) : 0x80 ≤ (Char.ofNat (p.push b).code).toNat := by
  rw [accepts_iff] at accepted
  have low := sound.low
  have scalar := sound.scalar (p.push b).code (by simp [Begun.Leads, Begun.push, owes]; omega)
  rw [Char.ofNat, dif_pos scalar.2]
  exact scalar.1

section
variable {c : Char} {b : UInt8} {found : List Piece}

theorem enter_ascii (ascii : c.toNat < 0x80) :
    .char c ∈ (Scan.enter found b).found ↔ b.toNat = c.toNat ∨ .char c ∈ found := by
  rw [Scan.enter]
  rcases Nat.lt_or_ge b.toNat 0x80 with small | large
  · have scalar : b.toNat.isValidChar := .inl (by omega)
    have opens : opening b = .whole (Char.ofNat b.toNat) := by rw [opening_eq, if_pos small]
    have same : c = Char.ofNat b.toNat ↔ b.toNat = c.toNat := by
      rw [← Char.toNat_inj, Char.ofNat, dif_pos scalar]
      exact eq_comm
    rw [opens, List.mem_cons, Piece.char.injEq, same]
  · have other : b.toNat ≠ c.toNat := by omega
    split
    next d whole =>
      rw [opening_eq, if_neg (Nat.not_lt.mpr large)] at whole
      repeat' split at whole
      all_goals simp at whole
    next => simp [other]
    next => simp [other]

theorem enter_sound {p : Begun} (begun : (Scan.enter found b).begun = some p) : p.Sound := by
  rw [Scan.enter] at begun
  split at begun
  next => simp at begun
  next q opens =>
    obtain rfl := Option.some.inj begun
    exact opening_sound opens
  next => simp at begun

/-- What a byte adds to the ASCII characters found is itself, whatever is under way. -/
theorem feed_ascii {s : Scan} (ascii : c.toNat < 0x80) (sound : ∀ p, s.begun = some p → p.Sound) :
    (.char c ∈ (s.feed b).found ↔ b.toNat = c.toNat ∨ .char c ∈ s.found) ∧
      ∀ p, (s.feed b).begun = some p → p.Sound := by
  obtain ⟨found, begun⟩ := s
  cases begun with
  | none => exact ⟨enter_ascii ascii, fun p => enter_sound⟩
  | some p =>
    have under := sound p rfl
    by_cases accepted : p.accepts b
    · have other : b.toNat ≠ c.toNat := by
        have low := under.low
        rw [accepts_iff] at accepted
        omega
      rcases Nat.lt_or_ge 1 p.owed with more | last
      · rw [feed_onward accepted more]
        refine ⟨by simp [other], fun q is => ?_⟩
        obtain rfl := Option.some.inj is
        exact under.push accepted more
      · have owes : p.owed = 1 := by
          have some := under.owes
          omega
        have beyond : c ≠ Char.ofNat (p.push b).code := by
          intro same
          rw [same] at ascii
          exact Nat.not_lt.mpr (under.last accepted owes) ascii
        rw [feed_last accepted owes, List.mem_cons, Piece.char.injEq]
        exact ⟨or_congr (iff_of_false beyond other) Iff.rfl, by simp⟩
    · have refused : Scan.feed ⟨found, some p⟩ b = Scan.enter (.stray p.seen :: found) b := by
        simp [Scan.feed, accepted]
      rw [refused, enter_ascii ascii]
      exact ⟨by simp, fun q => enter_sound⟩

theorem foldl_ascii {bs : List UInt8} {s : Scan} (ascii : c.toNat < 0x80)
    (sound : ∀ p, s.begun = some p → p.Sound) :
    .char c ∈ (bs.foldl Scan.feed s).found ↔ (∃ b ∈ bs, b.toNat = c.toNat) ∨ .char c ∈ s.found := by
  induction bs generalizing s with
  | nil => simp
  | cons b bs ih =>
    obtain ⟨found, onward⟩ := feed_ascii (b := b) ascii sound
    rw [List.foldl_cons, ih onward, found]
    simp only [List.mem_cons, exists_eq_or_imp]
    rw [or_left_comm, or_assoc]

end

theorem mem_decodeKeeping_ascii {bs : List UInt8} {c : Char} (ascii : c.toNat < 0x80) :
    .char c ∈ decodeKeeping bs ↔ ∃ b ∈ bs, b.toNat = c.toNat := by
  have whole : ∀ p : Piece, .char c ∈ p.marks ↔ p = .char c := by
    intro p
    cases p with
    | char d => simp [Piece.marks, eq_comm]
    | stray bytes => simp [Piece.marks]
  have closed : ∀ s : Scan, .char c ∈ s.close ↔ .char c ∈ s.found := by
    rintro ⟨found, begun⟩
    cases begun <;> simp [Scan.close]
  rw [decodeKeeping, List.mem_flatMap]
  simp only [whole, exists_eq_right, pieces, closed]
  rw [foldl_ascii ascii (by simp [Scan.start])]
  simp [Scan.start]

theorem mem_decodeKeeping_nul {bs : List UInt8} : .char '\x00' ∈ decodeKeeping bs ↔ 0 ∈ bs := by
  have zero : ∀ b : UInt8, b.toNat = '\x00'.toNat ↔ b = 0 := by
    intro b
    rw [← UInt8.toNat_inj]
    rfl
  rw [mem_decodeKeeping_ascii (by decide)]
  simp only [zero, exists_eq_right]

end JarLaunch.Utf8
