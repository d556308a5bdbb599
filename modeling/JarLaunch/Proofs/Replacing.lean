import JarLaunch.Handler
import JarLaunch.Proofs.Seams

/-! What stands in the place of bytes that are no text. A byte is taken into the character under way
exactly if some character begins with the bytes up to it, so a run that is given up is as long as it
can be. Runs and characters are told apart by this alone, so the rule has one reading only. -/
namespace JarLaunch.Utf8

def Begins (bs : List UInt8) : Prop := ∃ c, bs <+: String.utf8EncodeChar c

theorem Begins.shorter {as bs : List UInt8} (begins : Begins bs) (within : as <+: bs) :
    Begins as := by
  obtain ⟨c, first⟩ := begins
  exact ⟨c, within.trans first⟩

/-- Characters are read where they stand. Where none stands, the longest run with which some
character begins, or else a single byte, is read as one replacement character. -/
inductive Replaces : List UInt8 → List Char → Prop
  | nil : Replaces [] []
  | char (c : Char) {rest : List UInt8} {t : List Char} (reads : Replaces rest t) :
      Replaces (String.utf8EncodeChar c ++ rest) (c :: t)
  | stray {run rest : List UInt8} {t : List Char} (any : run ≠ [])
      (damaged : ∀ c, ¬ String.utf8EncodeChar c <+: run ++ rest)
      (begins : run.length = 1 ∨ Begins run)
      (longest : ∀ x, rest.head? = some x → ¬ Begins (run ++ [x])) (reads : Replaces rest t) :
      Replaces (run ++ rest) (replacement :: t)

def Begun.Spells (p : Begun) : Prop :=
  ∀ v, p.Leads v → String.utf8EncodeChar (Char.ofNat v) = p.seen ++ continuation v (p.owed - 1)

section
variable {b : UInt8} {p : Begun} {v : Nat}

theorem sixBits_of_toNat {b : UInt8} (low : 0x80 ≤ b.toNat) (high : b.toNat ≤ 0xBF)
    (bits : v % 64 = b.toNat - 0x80) : sixBits v = b := by
  rw [← UInt8.toNat_inj, toNat_sixBits]
  omega

theorem continuation_cons (n : Nat) :
    continuation v (n + 1) = sixBits (v / 64 ^ (n + 1)) :: continuation v n := rfl

theorem continuation_eq_cons (v n : Nat) :
    ∃ more, continuation v n = sixBits (v / 64 ^ n) :: more := by
  cases n with
  | zero => exact ⟨[], by simp [continuation]⟩
  | succ n => exact ⟨continuation v n, rfl⟩

theorem ofNat_eq_of_toNat {n : Nat} (same : n = b.toNat) : UInt8.ofNat n = b := by
  rw [same, UInt8.ofNat_toNat]

theorem opening_spells (opens : opening b = .begun p) : p.Spells := by
  intro v leads
  have scalar := ((opening_sound opens).scalar v leads)
  have toNat : (Char.ofNat v).toNat = v := by
    rw [Char.ofNat, dif_pos scalar.2]
    rfl
  rw [encodeChar_eq, toNat]
  obtain ⟨low, high, rfl⟩ | ⟨low, high, rfl⟩ | ⟨low, high, rfl⟩ := opening_begun opens
  · simp [Begun.Leads] at leads
    rw [if_neg (by omega), if_pos (by omega), ofNat_eq_of_toNat (b := b) (by omega)]
    rfl
  · have code : v / 64 ^ 2 = b.toNat - 0xE0 ∧ 0x800 ≤ v := by
      simp only [Begun.Leads] at leads
      by_cases first : b.toNat = 0xE0 <;> by_cases last : b.toNat = 0xED <;>
        simp [first, last] at leads <;> omega
    rw [if_neg (by omega), if_neg (by omega), if_pos (by omega),
      ofNat_eq_of_toNat (b := b) (by omega)]
    rfl
  · have code : v / 64 ^ 3 = b.toNat - 0xF0 ∧ 0x10000 ≤ v := by
      simp only [Begun.Leads] at leads
      by_cases first : b.toNat = 0xF0 <;> by_cases last : b.toNat = 0xF4 <;>
        simp [first, last] at leads <;> omega
    rw [if_neg (by omega), if_neg (by omega), if_neg (by omega),
      ofNat_eq_of_toNat (b := b) (by omega)]
    rfl

theorem opening_range (opens : opening b = .begun p) : p.low.toNat ≤ p.high.toNat := by
  obtain ⟨-, -, rfl⟩ | ⟨-, -, rfl⟩ | ⟨-, -, rfl⟩ := opening_begun opens
  · simp
  · dsimp only
    split <;> split <;> simp
    omega
  · dsimp only
    split <;> split <;> simp
    omega

/-- A character under way as the scan knows it: the bytes seen lead to it, and no byte that it takes
leads away from every character. -/
structure Begun.Genuine (p : Begun) : Prop where
  sound : p.Sound
  inside : p.Inside
  range : p.low.toNat ≤ p.high.toNat
  spells : p.Spells
  scanned : p.seen.foldl Scan.feed Scan.start = ⟨[], some p⟩

theorem opening_genuine (opens : opening b = .begun p) : p.Genuine ∧ p.seen = [b] := by
  have seen : p.seen = [b] := by
    obtain ⟨-, -, rfl⟩ | ⟨-, -, rfl⟩ | ⟨-, -, rfl⟩ := opening_begun opens <;> rfl
  refine ⟨⟨opening_sound opens, opening_inside opens, opening_range opens, opening_spells opens, ?_⟩,
    seen⟩
  rw [seen, List.foldl_cons, List.foldl_nil, Scan.start, Scan.feed, Scan.enter, opens]

namespace Begun.Genuine

theorem spelled (genuine : p.Genuine) (accepted : p.accepts b) :
    let v := (p.push b).code * 64 ^ (p.owed - 1)
    String.utf8EncodeChar (Char.ofNat v) = p.seen ++ continuation v (p.owed - 1) ∧
      sixBits (v / 64 ^ (p.owed - 1)) = b := by
  intro v
  have continues := isContinuation_iff.mp (genuine.inside.continues accepted)
  have code : v / 64 ^ (p.owed - 1) = p.code * 64 + (b.toNat - 0x80) :=
    Nat.mul_div_cancel _ (Nat.pow_pos (by omega))
  refine ⟨genuine.spells v ?_, ?_⟩
  · have low := genuine.inside.1
    rw [accepts_iff] at accepted
    rw [Begun.Leads, code]
    omega
  · rw [code]
    exact sixBits_of_toNat continues.1 continues.2 (by omega)

theorem begins_of_accepts (genuine : p.Genuine) (accepted : p.accepts b) :
    Begins (p.seen ++ [b]) := by
  obtain ⟨bytes, first⟩ := genuine.spelled accepted
  obtain ⟨more, left⟩ :=
    continuation_eq_cons ((p.push b).code * 64 ^ (p.owed - 1)) (p.owed - 1)
  rw [left, first] at bytes
  exact ⟨_, more, by rw [bytes, List.append_assoc, List.singleton_append]⟩

theorem begins (genuine : p.Genuine) : Begins p.seen := by
  have least : p.accepts p.low := accepts_iff.mpr ⟨Nat.le_refl _, genuine.range⟩
  exact (genuine.begins_of_accepts least).shorter (List.prefix_append _ _)

theorem last (genuine : p.Genuine) (accepted : p.accepts b) (owes : p.owed = 1) :
    String.utf8EncodeChar (Char.ofNat (p.push b).code) = p.seen ++ [b] := by
  obtain ⟨bytes, first⟩ := genuine.spelled accepted
  simp only [owes, Nat.sub_self, Nat.pow_zero, Nat.mul_one, Nat.div_one, continuation] at bytes first
  rw [bytes, first]

theorem push (genuine : p.Genuine) (accepted : p.accepts b) (owes : 1 < p.owed) :
    (p.push b).Genuine where
  sound := genuine.sound.push accepted owes
  inside := by simp [Begun.Inside, Begun.push]
  range := by simp [Begun.push]
  spells := by
    intro v leads
    have continues := isContinuation_iff.mp (genuine.inside.continues accepted)
    obtain ⟨n, shorter⟩ : ∃ n, p.owed - 1 = n + 1 := ⟨p.owed - 2, by omega⟩
    have left : (p.push b).owed - 1 = n := by simp [Begun.push]; omega
    have code : v / 64 ^ (n + 1) = p.code * 64 + (b.toNat - 0x80) := by
      rw [Begun.Leads, left] at leads
      simp [Begun.push] at leads
      rw [Nat.pow_succ, ← Nat.div_div_eq_div_mul]
      omega
    have before : p.Leads v := by
      have low := genuine.inside.1
      rw [accepts_iff] at accepted
      rw [Begun.Leads, shorter, code]
      omega
    rw [genuine.spells v before, shorter, left, continuation_cons, code,
      sixBits_of_toNat continues.1 continues.2 (by omega)]
    simp [Begun.push]
  scanned := by
    have seen : (p.push b).seen = p.seen ++ [b] := rfl
    rw [seen, List.foldl_append, genuine.scanned, List.foldl_cons, List.foldl_nil,
      feed_onward accepted owes]

end Begun.Genuine

end

section
variable {bs run rest run' rest' : List UInt8} {c d : Char} {p : Begun} {u : List Char}

theorem scan_char (c : Char) (more : List UInt8) :
    (String.utf8EncodeChar c ++ more).foldl Scan.feed Scan.start =
      (more.foldl Scan.feed Scan.start).after [.char c] := by
  rw [List.foldl_append, Scan.start, foldl_encodeChar]
  exact Scan.foldl_after more Scan.start [.char c]

theorem not_begins_of_stray {s : Scan}
    (scanned : bs.foldl Scan.feed Scan.start = s.after [.stray run]) : ¬ Begins bs := by
  rintro ⟨c, more, whole⟩
  have read := scan_char c []
  rw [List.append_nil, ← whole, List.foldl_append, scanned, Scan.foldl_after] at read
  have oldest := congrArg (fun s => s.found.getLast?) read
  simp [Scan.after] at oldest

theorem encodeChar_within (within : String.utf8EncodeChar c <+: String.utf8EncodeChar d) :
    c = d := by
  obtain ⟨more, whole⟩ := within
  have read := scan_char d []
  rw [List.append_nil, ← whole, scan_char] at read
  have oldest := congrArg (fun s => s.found.getLast?) read
  simpa [Scan.after] using oldest

theorem Begun.Genuine.unfinished (genuine : p.Genuine) (c : Char) :
    ¬ String.utf8EncodeChar c <+: p.seen := by
  rintro ⟨more, whole⟩
  have scanned := genuine.scanned
  rw [← whole, scan_char] at scanned
  have found := congrArg Scan.found scanned
  simp [Scan.after] at found

theorem damaged_of_longest (unfinished : ∀ c, ¬ String.utf8EncodeChar c <+: run)
    (longest : ∀ x, rest.head? = some x → ¬ Begins (run ++ [x])) (c : Char) :
    ¬ String.utf8EncodeChar c <+: run ++ rest := by
  intro stands
  rcases List.prefix_or_prefix_of_prefix stands (List.prefix_append run rest) with short | long
  · exact unfinished c short
  · obtain ⟨more, whole⟩ := long
    cases more with
    | nil =>
      have bytes : String.utf8EncodeChar c = run := by rw [← whole, List.append_nil]
      exact unfinished c ⟨[], by rw [bytes, List.append_nil]⟩
    | cons x more =>
      rw [← whole, List.prefix_append_right_inj] at stands
      obtain ⟨behind, rfl⟩ := stands
      exact longest x rfl ⟨c, more, by simp [← whole]⟩

/-- After a byte that it does not take, the scan stands as if it began there. -/
theorem feed_refused {b : UInt8} (refused : ¬ p.accepts b) :
    Scan.feed ⟨[], some p⟩ b = (Scan.start.feed b).after [.stray p.seen] := by
  rw [← Scan.feed_after]
  simp [Scan.feed, Scan.after, Scan.start, refused]

theorem shown_after (s : Scan) (piece : Piece) :
    (s.after [piece]).close.map Piece.shown = piece.shown :: s.close.map Piece.shown := by
  rw [Scan.close_after, List.reverse_singleton, List.singleton_append, List.map_cons]

theorem replaces_entered {b : UInt8} (fresh : Replaces bs (decode bs))
    (under : ∀ p : Begun, p.Genuine →
      Replaces (p.seen ++ bs) ((bs.foldl Scan.feed ⟨[], some p⟩).close.map Piece.shown)) :
    Replaces (b :: bs) (decode (b :: bs)) := by
  rw [decode, pieces, List.foldl_cons]
  cases opens : opening b with
  | whole c =>
    have entered : Scan.start.feed b = Scan.start.after [.char c] := by
      simp [Scan.feed, Scan.start, Scan.enter, opens, Scan.after]
    have bytes : String.utf8EncodeChar c = [b] := by
      rw [opening_eq] at opens
      split at opens
      next small =>
        have scalar : b.toNat.isValidChar := .inl (by omega)
        have code : (Char.ofNat b.toNat).toNat = b.toNat := by
          rw [Char.ofNat, dif_pos scalar]
          rfl
        rw [← Opening.whole.inj opens, encodeChar_eq, code, if_pos small, UInt8.ofNat_toNat]
      next =>
        repeat' split at opens
        all_goals simp at opens
    rw [entered, Scan.foldl_after, shown_after, ← List.singleton_append, ← bytes]
    exact .char c fresh
  | begun p =>
    have entered : Scan.start.feed b = ⟨[], some p⟩ := by
      simp [Scan.feed, Scan.start, Scan.enter, opens]
    obtain ⟨genuine, seen⟩ := opening_genuine opens
    rw [entered, ← List.singleton_append, ← seen]
    exact under p genuine
  | stray =>
    have entered : Scan.start.feed b = Scan.start.after [.stray [b]] := by
      simp [Scan.feed, Scan.start, Scan.enter, opens, Scan.after]
    have none : ¬ Begins [b] := not_begins_of_stray (by rw [List.foldl_cons, List.foldl_nil, entered])
    have longest : ∀ x, bs.head? = some x → ¬ Begins ([b] ++ [x]) := by
      intro x _ begins
      exact none (begins.shorter (List.prefix_append _ _))
    have unfinished : ∀ c, ¬ String.utf8EncodeChar c <+: [b] := by
      intro c within
      cases bytes : String.utf8EncodeChar c with
      | nil => exact String.utf8EncodeChar_ne_nil bytes
      | cons x more =>
        rw [bytes] at within
        cases (List.cons_prefix_cons.mp within).1
        exact none ⟨c, more, bytes.symm⟩
    rw [entered, Scan.foldl_after, shown_after, ← List.singleton_append]
    exact .stray (List.cons_ne_nil b []) (damaged_of_longest unfinished longest) (.inl rfl) longest
      fresh

theorem Begun.Genuine.stray (genuine : p.Genuine)
    (longest : ∀ x, rest.head? = some x → ¬ Begins (p.seen ++ [x])) (reads : Replaces rest u) :
    Replaces (p.seen ++ rest) (replacement :: u) := by
  have any : p.seen ≠ [] := by
    intro blank
    have scanned := genuine.scanned
    rw [blank] at scanned
    cases scanned
  exact .stray any (damaged_of_longest genuine.unfinished longest) (.inr genuine.begins) longest reads

-- The two parts need each other: a character that is given up sends the scan back to where none is
-- under way, and a byte that opens one takes it there.
theorem replaces_scan (bs : List UInt8) :
    Replaces bs (decode bs) ∧ ∀ p : Begun, p.Genuine →
      Replaces (p.seen ++ bs) ((bs.foldl Scan.feed ⟨[], some p⟩).close.map Piece.shown) := by
  induction bs with
  | nil => exact ⟨.nil, fun p genuine => genuine.stray (by simp) .nil⟩
  | cons b bs ih =>
    obtain ⟨fresh, under⟩ := ih
    have entered : Replaces (b :: bs) (decode (b :: bs)) := replaces_entered fresh under
    refine ⟨entered, fun p genuine => ?_⟩
    rw [List.foldl_cons]
    by_cases accepted : p.accepts b
    · rw [← List.singleton_append, ← List.append_assoc]
      rcases Nat.lt_or_ge 1 p.owed with more | last
      · rw [feed_onward accepted more]
        exact under (p.push b) (genuine.push accepted more)
      · have owes : p.owed = 1 := by
          have some := genuine.sound.owes
          omega
        have done : Scan.feed ⟨[], some p⟩ b =
            Scan.start.after [.char (Char.ofNat (p.push b).code)] := by
          rw [feed_last accepted owes]
          rfl
        rw [done, Scan.foldl_after, shown_after, ← genuine.last accepted owes]
        exact .char _ fresh
    · rw [feed_refused accepted, Scan.foldl_after, shown_after]
      refine genuine.stray (fun x first => ?_) entered
      cases Option.some.inj first
      apply not_begins_of_stray
      rw [List.foldl_append, genuine.scanned, List.foldl_cons, List.foldl_nil, feed_refused accepted]

theorem runs_comparable (same : run ++ rest = run' ++ rest') : run <+: run' ∨ run' <+: run := by
  have first : run <+: run' ++ rest' := ⟨rest, same⟩
  exact List.prefix_or_prefix_of_prefix first (List.prefix_append run' rest')

theorem Replaces.of_char (reads : Replaces (String.utf8EncodeChar c ++ rest) u) :
    ∃ t, u = c :: t ∧ Replaces rest t := by
  generalize whole : String.utf8EncodeChar c ++ rest = bs at reads
  cases reads with
  | nil => exact absurd (List.append_eq_nil_iff.mp whole).1 String.utf8EncodeChar_ne_nil
  | char d reads =>
    have same : c = d := by
      rcases runs_comparable whole with here | there
      · exact encodeChar_within here
      · exact (encodeChar_within there).symm
    subst same
    exact ⟨_, rfl, List.append_cancel_left whole ▸ reads⟩
  | stray any damaged begins longest reads =>
    exact absurd (whole ▸ List.prefix_append _ _) (damaged c)

/-- A run that is as long as it can be is no part of a longer one. -/
theorem run_unique (same : run ++ rest = run' ++ rest') (any : run ≠ [])
    (longest : ∀ x, rest.head? = some x → ¬ Begins (run ++ [x]))
    (begins : run'.length = 1 ∨ Begins run') (within : run <+: run') : run = run' := by
  obtain ⟨more, rfl⟩ := within
  cases more with
  | nil => rw [List.append_nil]
  | cons x more =>
    rw [List.append_assoc] at same
    have first : rest.head? = some x := by rw [List.append_cancel_left same]; rfl
    rcases begins with single | begins
    · have positive := List.length_pos_iff.mpr any
      simp at single
      omega
    · exact absurd (begins.shorter ⟨more, by simp⟩) (longest x first)

theorem Replaces.of_stray (any : run ≠ []) (damaged : ∀ c, ¬ String.utf8EncodeChar c <+: run ++ rest)
    (begins : run.length = 1 ∨ Begins run)
    (longest : ∀ x, rest.head? = some x → ¬ Begins (run ++ [x])) (reads : Replaces (run ++ rest) u) :
    ∃ t, u = replacement :: t ∧ Replaces rest t := by
  generalize whole : run ++ rest = bs at reads
  cases reads with
  | nil => exact absurd (List.append_eq_nil_iff.mp whole).1 any
  | char d reads => exact absurd (whole ▸ List.prefix_append _ _) (damaged d)
  | @stray run' rest' t any' damaged' begins' longest' reads =>
    have same : run = run' := by
      rcases runs_comparable whole with here | there
      · exact run_unique whole any longest begins' here
      · exact (run_unique whole.symm any' longest' begins there).symm
    subst same
    exact ⟨_, rfl, List.append_cancel_left whole ▸ reads⟩

/-- The rule has one reading, and decoding finds it. -/
theorem replaces_iff {t : List Char} : Replaces bs t ↔ t = decode bs := by
  constructor
  · intro reads
    have decoded := (replaces_scan bs).1
    generalize decode bs = u at decoded
    induction reads generalizing u with
    | nil =>
      generalize blank : ([] : List UInt8) = bs at decoded
      cases decoded with
      | nil => rfl
      | char c reads =>
        exact absurd (List.append_eq_nil_iff.mp blank.symm).1 String.utf8EncodeChar_ne_nil
      | stray any damaged begins longest reads =>
        exact absurd (List.append_eq_nil_iff.mp blank.symm).1 any
    | char c reads ih =>
      obtain ⟨t, rfl, behind⟩ := decoded.of_char
      rw [ih t behind]
    | stray any damaged begins longest reads ih =>
      obtain ⟨t, rfl, behind⟩ := decoded.of_stray any damaged begins longest
      rw [ih t behind]
  · intro same
    rw [same]
    exact (replaces_scan bs).1

end

/-- Decoding puts one replacement character for each maximal stray run. Bytes are read apart on both
sides of a seam, and an encoded text is read back. So whatever the printing handler makes of damaged
output, a text that comes after it is printed as it is. -/
theorem decoding_resynchronises :
    (∀ (bs : List UInt8) (t : List Char), Replaces bs t ↔ t = decode bs) ∧
    (∀ a b : List UInt8, (∀ x, b.head? = some x → ¬ isContinuation x) →
      decode (a ++ b) = decode a ++ decode b) ∧
    (∀ s : List Char, decode (encode s) = s) ∧
    ∀ (p : Printout) (s : List Char),
      { p with stdout := p.stdout ++ encode s }.out = p.out ++ Text.ofChars s ∧
      { p with stderr := p.stderr ++ encode s }.err =
        Text.ofChars (decode p.stderr ++ s) ++ (p.message.map Printout.complaint).getD [] := by
  refine ⟨fun bs t => replaces_iff, fun a b => decode_append, decode_encode, fun p s => ?_⟩
  have onward (a : List UInt8) : decode (a ++ encode s) = decode a ++ s := by
    rw [decode_append fun x => encode_seam, decode_encode]
  constructor
  · simp only [Printout.out, onward, Text.ofChars, List.map_append]
  · simp only [Printout.err, onward]

/-- Three bytes of a face, and then a whole currency sign. -/
theorem cut_character_resynchronises :
    (∀ x, [(0xE2 : UInt8), 0x82, 0xAC].head? = some x → ¬ isContinuation x) ∧
      decode ([0xF0, 0x9F, 0x98] ++ [0xE2, 0x82, 0xAC]) =
        decode [0xF0, 0x9F, 0x98] ++ decode [0xE2, 0x82, 0xAC] := by
  have seam : ∀ x, [(0xE2 : UInt8), 0x82, 0xAC].head? = some x → ¬ isContinuation x := by
    intro x first
    rw [← Option.some.inj first]
    decide
  exact ⟨seam, decoding_resynchronises.2.1 _ _ seam⟩

end JarLaunch.Utf8
