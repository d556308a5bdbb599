import JarLaunch.Proofs.Decoding

/-! Where damaged output ends and text begins. A character under way takes continuation bytes only,
so any other byte ends it exactly as the end of the input would, and the reader goes on as if it had
started there. Bytes are therefore read apart on both sides of such a seam, and since no encoded
text begins with a continuation byte, it is read whole whatever stands before it. -/
namespace JarLaunch.Utf8

/-- A byte that stands only inside a character. -/
def isContinuation (b : UInt8) : Bool := 0x80 ≤ b && b ≤ 0xBF

theorem isContinuation_iff {b : UInt8} :
    isContinuation b ↔ 0x80 ≤ b.toNat ∧ b.toNat ≤ 0xBF := by
  simp [isContinuation, UInt8.le_iff_toNat_le]

def Begun.Inside (p : Begun) : Prop := 0x80 ≤ p.low.toNat ∧ p.high.toNat ≤ 0xBF

theorem Begun.Inside.continues {p : Begun} {b : UInt8} (inside : p.Inside) (accepted : p.accepts b) :
    isContinuation b := by
  obtain ⟨low, high⟩ := inside
  rw [accepts_iff] at accepted
  rw [isContinuation_iff]
  omega

theorem opening_begun {b : UInt8} {p : Begun} (opens : opening b = .begun p) :
    (0xC2 ≤ b.toNat ∧ b.toNat < 0xE0 ∧ p = ⟨1, 0x80, 0xBF, b.toNat - 0xC0, [b]⟩) ∨
    (0xE0 ≤ b.toNat ∧ b.toNat < 0xF0 ∧
      p = ⟨2, if b.toNat = 0xE0 then 0xA0 else 0x80, if b.toNat = 0xED then 0x9F else 0xBF,
        b.toNat - 0xE0, [b]⟩) ∨
    (0xF0 ≤ b.toNat ∧ b.toNat < 0xF5 ∧
      p = ⟨3, if b.toNat = 0xF0 then 0x90 else 0x80, if b.toNat = 0xF4 then 0x8F else 0xBF,
        b.toNat - 0xF0, [b]⟩) := by
  rw [opening_eq] at opens
  split at opens
  · contradiction
  split at opens
  · contradiction
  split at opens
  · exact .inl ⟨by omega, by omega, (Opening.begun.inj opens).symm⟩
  split at opens
  · exact .inr (.inl ⟨by omega, by omega, (Opening.begun.inj opens).symm⟩)
  split at opens
  · exact .inr (.inr ⟨by omega, by omega, (Opening.begun.inj opens).symm⟩)
  · contradiction

theorem opening_inside {b : UInt8} {p : Begun} (opens : opening b = .begun p) : p.Inside := by
  obtain ⟨-, -, rfl⟩ | ⟨-, -, rfl⟩ | ⟨-, -, rfl⟩ := opening_begun opens
  · simp [Begun.Inside]
  · constructor <;> dsimp only <;> split <;> simp
  · constructor <;> dsimp only <;> split <;> simp

namespace Scan

theorem enter_inside {found : List Piece} {b : UInt8} {p : Begun}
    (begun : (enter found b).begun = some p) : p.Inside := by
  unfold enter at begun
  split at begun
  · contradiction
  · rename_i q opens
    cases Option.some.inj begun
    exact opening_inside opens
  · contradiction

theorem feed_inside {s : Scan} {b : UInt8} {p : Begun} (begun : (s.feed b).begun = some p) :
    p.Inside := by
  obtain ⟨found, under⟩ := s
  cases under with
  | none => exact enter_inside begun
  | some q =>
    simp only [feed] at begun
    split at begun
    · split at begun
      · contradiction
      · cases Option.some.inj begun
        simp [Begun.Inside, Begun.push]
    · exact enter_inside begun

theorem foldl_inside {bs : List UInt8} {s : Scan} {p : Begun}
    (inside : ∀ q, s.begun = some q → q.Inside) (begun : (bs.foldl feed s).begun = some p) :
    p.Inside := by
  induction bs generalizing s with
  | nil => exact inside p begun
  | cons b bs ih => exact ih (fun q => feed_inside) begun

/-- A byte that continues nothing ends what is under way as the end of the input does. -/
theorem feed_seam {s : Scan} {b : UInt8} (inside : ∀ p, s.begun = some p → p.Inside)
    (seam : ¬ isContinuation b) : s.feed b = feed ⟨s.close.reverse, none⟩ b := by
  obtain ⟨found, begun⟩ := s
  cases begun with
  | none => simp [close]
  | some p =>
    have refused : ¬ p.accepts b := fun accepted => seam ((inside p rfl).continues accepted)
    simp [feed, close, refused]

def after (s : Scan) (earlier : List Piece) : Scan := ⟨s.found ++ earlier, s.begun⟩

theorem enter_after (found earlier : List Piece) (b : UInt8) :
    enter (found ++ earlier) b = (enter found b).after earlier := by
  unfold enter after
  cases opening b <;> rfl

theorem feed_after (s : Scan) (earlier : List Piece) (b : UInt8) :
    (s.after earlier).feed b = (s.feed b).after earlier := by
  obtain ⟨found, begun⟩ := s
  cases begun with
  | none => exact enter_after found earlier b
  | some p =>
    simp only [feed, after]
    split
    · split <;> rfl
    · exact enter_after (.stray p.seen :: found) earlier b

theorem foldl_after (bs : List UInt8) (s : Scan) (earlier : List Piece) :
    bs.foldl feed (s.after earlier) = (bs.foldl feed s).after earlier := by
  induction bs generalizing s with
  | nil => rfl
  | cons b bs ih => rw [List.foldl_cons, List.foldl_cons, feed_after, ih]

theorem close_after (s : Scan) (earlier : List Piece) :
    (s.after earlier).close = earlier.reverse ++ s.close := by
  obtain ⟨found, begun⟩ := s
  cases begun <;> simp [close, after]

end Scan

/-- Bytes are cut into the same pieces on both sides of a seam. -/
theorem pieces_append {a b : List UInt8} (seam : ∀ x, b.head? = some x → ¬ isContinuation x) :
    pieces (a ++ b) = pieces a ++ pieces b := by
  cases b with
  | nil => simp [pieces, Scan.close, Scan.start]
  | cons x bs =>
    have inside : ∀ p, (a.foldl Scan.feed Scan.start).begun = some p → p.Inside := by
      intro p begun
      exact Scan.foldl_inside (by simp [Scan.start]) begun
    have resumed : Scan.mk (pieces a).reverse none = Scan.start.after (pieces a).reverse := by
      simp [Scan.start, Scan.after]
    calc pieces (a ++ x :: bs)
        = (bs.foldl Scan.feed ((a.foldl Scan.feed Scan.start).feed x)).close := by
          rw [pieces, List.foldl_append, List.foldl_cons]
      _ = ((x :: bs).foldl Scan.feed ⟨(pieces a).reverse, none⟩).close := by
          rw [Scan.feed_seam inside (seam x rfl), List.foldl_cons, pieces]
      _ = pieces a ++ pieces (x :: bs) := by
          rw [resumed, Scan.foldl_after, Scan.close_after, List.reverse_reverse, ← pieces]

theorem decode_append {a b : List UInt8} (seam : ∀ x, b.head? = some x → ¬ isContinuation x) :
    decode (a ++ b) = decode a ++ decode b := by
  simp only [decode, pieces_append seam, List.map_append]

theorem encodeChar_seam {c : Char} {x : UInt8} (first : (String.utf8EncodeChar c).head? = some x) :
    ¬ isContinuation x := by
  have range : c.toNat.isValidChar := c.valid
  have top : c.toNat < 0x110000 := by
    rcases range with low | high <;> omega
  rw [encodeChar_eq] at first
  rw [isContinuation_iff]
  generalize c.toNat = v at first top
  repeat' split at first
  all_goals
    rw [List.head?_cons, Option.some.injEq] at first
    subst x
    simp only [UInt8.toNat_ofNat', Nat.reducePow]
    omega

theorem encode_seam {cs : List Char} {x : UInt8} (first : (encode cs).head? = some x) :
    ¬ isContinuation x := by
  cases cs with
  | nil => contradiction
  | cons c cs =>
    rw [encode, List.flatMap_cons] at first
    cases bytes : String.utf8EncodeChar c with
    | nil => exact absurd bytes String.utf8EncodeChar_ne_nil
    | cons y ys =>
      rw [bytes, List.cons_append, List.head?_cons] at first
      exact encodeChar_seam (by rw [bytes, List.head?_cons, first])

end JarLaunch.Utf8
