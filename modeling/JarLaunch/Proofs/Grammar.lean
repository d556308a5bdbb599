import JarLaunch.Options.Basic

/-! The grammar of command lines. Options are taken one after the other, each with its value, until
an operand comes that is no option's value; it and all words after it are arguments. But every word
is classified, those after the operand too, and one kind of word has no class: the two dashes that
all long options begin with, alone or with an equals sign and a value. -/
namespace JarLaunch

theorem bind_eq_ok {ε α β : Type} {x : Except ε α} {f : α → Except ε β} {b : β}
    (bound : x >>= f = .ok b) : ∃ a, x = .ok a ∧ f a = .ok b := by
  cases x with
  | error e => cases bound
  | ok a => exact ⟨a, rfl, bound⟩

theorem map_eq_ok {ε α β : Type} {x : Except ε α} {f : α → β} {b : β}
    (mapped : x.map f = .ok b) : ∃ a, x = .ok a ∧ f a = b := by
  cases x with
  | error e => cases mapped
  | ok a => exact ⟨a, rfl, Except.ok.inj mapped⟩

namespace Word

/-- Is a word two dashes and no name, with or without a value? -/
def isBare : Word → Bool
  | [.char '-', .char '-'] => true
  | .char '-' :: .char '-' :: .char '=' :: _ => true
  | _ => false

def longOptions : List Word :=
  [Text.ofString "--help", Text.ofString "--java", Text.ofString "--timeout",
    Text.ofString "--verbose"]

theorem classify_bare {w : Word} (bare : w.isBare) :
    w.classify = .error (.ambiguous w longOptions) := by
  unfold isBare at bare
  split at bare
  · rfl
  · rfl
  · cases bare

theorem named_of_classify {w : Word} {c : WordClass} (classified : w.classify = .ok c) :
    w.isBare = false := by
  cases bare : w.isBare with
  | false => rfl
  | true => cases (classify_bare bare).symm.trans classified

theorem first_bare {words : List Word} (some : ¬ ∀ x ∈ words, x.isBare = false) :
    ∃ before x after, words = before ++ x :: after ∧ (∀ y ∈ before, y.isBare = false) ∧
      x.isBare := by
  cases found : words.find? isBare with
  | none =>
    refine (some ?_).elim
    simpa using found
  | some x =>
    obtain ⟨bare, before, after, rfl, named⟩ := List.find?_eq_some_iff_append.mp found
    exact ⟨before, x, after, rfl, by simpa using named, bare⟩

theorem splitAtEquals_named {m : Mark} (named : m ≠ .char '=') (rest : Word) :
    ∃ start value, splitAtEquals (.char '-' :: .char '-' :: m :: rest) =
      (.char '-' :: .char '-' :: m :: start, value) := by
  unfold splitAtEquals
  split
  · exact ⟨rest, none, rfl⟩
  · rename_i value _
    exact ⟨rest.takeWhile (· ≠ .char '='), some value, by simp [named]⟩

theorem countP_third_letter (m : Mark) :
    Flag.spellings.countP (fun s => s.1[2]? = some m) ≤ 1 := by
  have letters : Flag.spellings.countP (fun s => s.1[2]? = some m) =
      (Text.ofString "hjtv").count m := by
    simp [Flag.spellings, Text.ofString, Text.ofChars, List.countP_cons, List.count_cons]
  rw [letters]
  exact List.nodup_iff_count.mp (by decide) m

theorem countP_spelling (start : Word) : Flag.spellings.countP (fun s => s.1 = start) ≤ 1 := by
  have distinct : (Flag.spellings.map Prod.fst).Nodup := by decide
  have once := List.nodup_iff_count.mp distinct start
  rw [List.count_eq_countP, List.countP_map] at once
  refine Nat.le_trans (List.countP_mono_left ?_) once
  intro s _ spelled
  simpa using spelled

theorem abbreviated_length {w : Word} (named : w.isBare = false) : (abbreviated w).length ≤ 1 := by
  unfold abbreviated
  split
  · rename_i dashes
    match w, dashes with
    | a :: b :: rest, dashes =>
      obtain ⟨rfl, rfl⟩ : a = .char '-' ∧ b = .char '-' := by simpa using dashes
      cases rest with
      | nil => cases named
      | cons m rest =>
        have letter : m ≠ .char '=' := by
          rintro rfl
          cases named
        obtain ⟨start, value, split⟩ := splitAtEquals_named letter rest
        simp only [split, List.length_map, ← List.countP_eq_length_filter]
        refine Nat.le_trans (List.countP_mono_left ?_) (countP_third_letter m)
        intro s _ begins
        obtain ⟨more, spelled⟩ := List.isPrefixOf_iff_prefix.mp begins
        simp [← spelled]
  · rw [List.length_map, ← List.countP_eq_length_filter]
    exact countP_spelling (w.take 2)

theorem classify_named {w : Word} (named : w.isBare = false) : ∃ c, w.classify = .ok c := by
  unfold classify
  split
  · unfold classifyDashed
    split
    · exact ⟨_, rfl⟩
    · have few := abbreviated_length named
      split
      · exact ⟨_, rfl⟩
      · exact ⟨_, rfl⟩
      · rename_i several none one
        match h : abbreviated _, few with
        | [], _ => exact absurd h none
        | [c], _ => exact absurd h (one c)
  · exact ⟨_, rfl⟩

end Word

namespace Options

section
variable {xs ys : List Word} {cs : List (Word × WordClass)}

theorem classifyAll_cons (x : Word) (xs : List Word) :
    classifyAll (x :: xs) = do
      let c ← x.classify
      let cs ← classifyAll xs
      return (x, c) :: cs := by
  rw [classifyAll, List.mapM_cons]
  cases x.classify with
  | error e => rfl
  | ok c => rfl

theorem classifyAll_append (classified : classifyAll xs = .ok cs) (ys : List Word) :
    classifyAll (xs ++ ys) = (classifyAll ys).map (cs ++ ·) := by
  unfold classifyAll at classified ⊢
  rw [List.mapM_append, classified]
  rfl

theorem classifyAll_words (classified : classifyAll xs = .ok cs) : cs.map Prod.fst = xs := by
  induction xs generalizing cs with
  | nil =>
    cases classified
    rfl
  | cons x xs ih =>
    rw [classifyAll_cons] at classified
    obtain ⟨c, -, following⟩ := bind_eq_ok classified
    obtain ⟨rest, known, is⟩ := bind_eq_ok following
    cases is
    rw [List.map_cons, ih known]

theorem classifyAll_isOk_iff : (∃ cs, classifyAll xs = .ok cs) ↔ ∀ x ∈ xs, x.isBare = false := by
  induction xs with
  | nil => simp [classifyAll, pure, Except.pure]
  | cons x xs ih =>
    rw [List.forall_mem_cons, ← ih, classifyAll_cons]
    constructor
    · rintro ⟨cs, classified⟩
      obtain ⟨c, first, following⟩ := bind_eq_ok classified
      obtain ⟨rest, classified, -⟩ := bind_eq_ok following
      exact ⟨Word.named_of_classify first, rest, classified⟩
    · rintro ⟨named, rest, classified⟩
      obtain ⟨c, first⟩ := Word.classify_named named
      exact ⟨(x, c) :: rest, by rw [first, classified]; rfl⟩

end

section
variable {o o' : Options} {flag : Flag}

theorem takeValue_eq_ok {value : Word} (taken : o.takeValue flag value = .ok o') :
    (∃ v, o' = { o with java := v }) ∨ ∃ v, o' = { o with timeout := v } := by
  cases flag with
  | help | verbose => cases taken
  | java =>
    obtain ⟨v, -, rfl⟩ := map_eq_ok taken
    exact .inl ⟨v, rfl⟩
  | timeout =>
    obtain ⟨v, -, rfl⟩ := map_eq_ok taken
    exact .inr ⟨v, rfl⟩

theorem take_eq_ok (taken : o.take flag = .ok o') : o' = { o with verbose := true } := by
  cases flag <;> cases taken
  rfl

theorem foldlM_take_eq_ok {flags : List Flag} (taken : (flag :: flags).foldlM take o = .ok o') :
    o' = { o with verbose := true } := by
  induction flags generalizing flag o with
  | nil =>
    obtain ⟨o₁, first, rest⟩ := bind_eq_ok taken
    cases rest
    exact take_eq_ok first
  | cons next flags ih =>
    obtain ⟨o₁, first, rest⟩ := bind_eq_ok taken
    rw [ih rest, take_eq_ok first]

theorem cluster_eq_ok {letters : Word} {flags : List Flag}
    (are : cluster flag letters = .ok flags) : ∃ more, flags = flag :: more := by
  unfold cluster at are
  split at are
  · cases are
    exact ⟨[], rfl⟩
  · split at are
    · obtain ⟨more, -, rfl⟩ := map_eq_ok are
      exact ⟨more, rfl⟩
    · cases are

theorem takePlain_eq_ok {short : Bool} {value : Option Word}
    (taken : o.takePlain flag short value = .ok o') : o' = { o with verbose := true } := by
  unfold takePlain at taken
  split at taken
  · exact take_eq_ok taken
  · split at taken
    · split at taken
      · cases taken
      · rename_i flags are
        obtain ⟨more, rfl⟩ := cluster_eq_ok are
        exact foldlM_take_eq_ok taken
    · cases taken

end

/-- Options that are taken one after the other, each with its value if it takes one: the value is
written with it, or it is the next word. -/
inductive Takes : Options → List (Word × WordClass) → Options → Prop where
  | done (o : Options) : Takes o [] o
  | attached {o o₁ o₂ : Options} {flag : Flag} {value : Word} {rest : List (Word × WordClass)}
      (w : Word) (short : Bool) (valued : flag.takesValue)
      (taken : o.takeValue flag value = .ok o₁) (so : Takes o₁ rest o₂) :
      Takes o ((w, .option flag short (some value)) :: rest) o₂
  | apart {o o₁ o₂ : Options} {flag : Flag} {value : Word} {rest : List (Word × WordClass)}
      (w : Word) (short : Bool) (valued : flag.takesValue)
      (taken : o.takeValue flag value = .ok o₁) (so : Takes o₁ rest o₂) :
      Takes o ((w, .option flag short none) :: (value, .operand) :: rest) o₂
  | plain {o o₁ o₂ : Options} {flag : Flag} {short : Bool} {value : Option Word}
      {rest : List (Word × WordClass)} (w : Word) (unvalued : flag.takesValue = false)
      (taken : o.takePlain flag short value = .ok o₁) (so : Takes o₁ rest o₂) :
      Takes o ((w, .option flag short value) :: rest) o₂

section
variable {o o' : Options} {front rest cs : List (Word × WordClass)}

/-- Taken options are out of the way of what comes after them. -/
theorem Takes.collect (takes : Takes o front o') (strange : List Word)
    (rest : List (Word × WordClass)) :
    collect o strange (front ++ rest) = collect o' strange rest := by
  induction takes with
  | done o => rfl
  | attached w short valued taken _ ih =>
    rw [List.cons_append, Options.collect, if_pos valued, taken]
    exact ih
  | apart w short valued taken _ ih =>
    rw [List.cons_append, List.cons_append, Options.collect.eq_def]
    simp only [valued, if_true, taken]
    exact ih
  | plain w unvalued taken _ ih =>
    rw [List.cons_append, Options.collect.eq_def]
    simp only [unvalued, Bool.false_eq_true, if_false, taken]
    exact ih

theorem Takes.args (takes : Takes o front o') : o'.args = o.args := by
  induction takes with
  | done o => rfl
  | attached w short valued taken _ ih | apart w short valued taken _ ih =>
    rcases takeValue_eq_ok taken with ⟨v, rfl⟩ | ⟨v, rfl⟩ <;> exact ih
  | plain w unvalued taken _ ih =>
    cases takePlain_eq_ok taken
    exact ih

/-- A line that is accepted begins with options that are all taken; what is left over is empty or
begins with an operand. -/
theorem collect_accepts {strange : List Word} (collected : collect o strange cs = .ok o') :
    strange = [] ∧ ∃ front rest o₁, cs = front ++ rest ∧ Takes o front o₁ ∧
      (rest = [] ∧ o' = o₁ ∨
        (∃ w more, rest = (w, .operand) :: more) ∧ o' = { o₁ with args := rest.map Prod.fst }) := by
  fun_induction collect o strange cs with
  | case1 o strange none =>
    rw [← Except.ok.inj collected]
    exact ⟨List.isEmpty_iff.mp none, [], [], o, rfl, .done o, .inl ⟨rfl, rfl⟩⟩
  | case3 o strange w rest none =>
    rw [← Except.ok.inj collected]
    exact ⟨List.isEmpty_iff.mp none, [], _, o, rfl, .done o, .inr ⟨⟨w, rest, rfl⟩, rfl⟩⟩
  | case2 | case4 | case8 => cases collected
  | case5 o strange w rest ih =>
    have absurd := (ih collected).1
    simp at absurd
  | case6 o strange w flag short valued v rest ih =>
    obtain ⟨o₁, taken, onward⟩ := bind_eq_ok collected
    obtain ⟨none, front, left, o₂, rfl, so, ends⟩ := ih o₁ onward
    exact ⟨none, _ :: front, left, o₂, rfl, .attached w short valued taken so, ends⟩
  | case7 o strange w flag short valued v rest ih =>
    obtain ⟨o₁, taken, onward⟩ := bind_eq_ok collected
    obtain ⟨none, front, left, o₂, rfl, so, ends⟩ := ih o₁ onward
    exact ⟨none, _ :: _ :: front, left, o₂, rfl, .apart w short valued taken so, ends⟩
  | case9 o strange w flag short value rest unvalued ih =>
    obtain ⟨o₁, taken, onward⟩ := bind_eq_ok collected
    obtain ⟨none, front, left, o₂, rfl, so, ends⟩ := ih o₁ onward
    exact ⟨none, _ :: front, left, o₂, rfl, .plain w (by simpa using unvalued) taken so, ends⟩

theorem takes_of_collect (collected : collect o [] cs = .ok o') (none : o'.args = []) :
    Takes o cs o' := by
  obtain ⟨-, front, rest, o₁, rfl, takes, ⟨rfl, rfl⟩ | ⟨⟨w, more, rfl⟩, rfl⟩⟩ :=
    collect_accepts collected
  · rw [List.append_nil]
    exact takes
  · cases none

end

section
variable {xs ys : List Word} {o : Options}

theorem parse_eq_ok (parsed : parse xs = .ok o) :
    ∃ cs, classifyAll xs = .ok cs ∧ collect {} [] cs = .ok o := by
  unfold parse at parsed
  split at parsed
  · cases parsed
  · exact ⟨_, ‹_›, parsed⟩

theorem named_of_parse (parsed : parse xs = .ok o) : ∀ x ∈ xs, x.isBare = false := by
  obtain ⟨cs, classified, -⟩ := parse_eq_ok parsed
  exact classifyAll_isOk_iff.mp ⟨cs, classified⟩

theorem parse_operand {w : Word} (options : parse xs = .ok o) (none : o.args = [])
    (operand : w.classify = .ok .operand) (named : ∀ y ∈ ys, y.isBare = false) :
    parse (xs ++ w :: ys) = .ok { o with args := w :: ys } := by
  obtain ⟨cs, classified, collected⟩ := parse_eq_ok options
  obtain ⟨ds, following⟩ := classifyAll_isOk_iff.mpr named
  have whole : classifyAll (xs ++ w :: ys) = .ok (cs ++ (w, .operand) :: ds) := by
    rw [classifyAll_append classified, classifyAll_cons, operand, following]
    rfl
  have takes := takes_of_collect collected none
  simp only [parse, whole, takes.collect, collect, List.isEmpty_nil, if_true]
  rw [classifyAll_words following]

/-- The first bare word ends the reading, wherever it stands. -/
theorem parse_bare {x : Word} (named : ∀ y ∈ xs, y.isBare = false) (bare : x.isBare) :
    parse (xs ++ x :: ys) = .error (.usage (.ambiguous x Word.longOptions)) := by
  obtain ⟨cs, classified⟩ := classifyAll_isOk_iff.mpr named
  have whole : classifyAll (xs ++ x :: ys) = .error (.ambiguous x Word.longOptions) := by
    rw [classifyAll_append classified, classifyAll_cons, Word.classify_bare bare]
    rfl
  simp only [parse, whole]

end

end Options

end JarLaunch
