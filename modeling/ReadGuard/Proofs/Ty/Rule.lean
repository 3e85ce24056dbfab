import ReadGuard.Ty.Grammar

namespace ReadGuard.Ty.Rule

variable {α β : Type} {p q : Rule α} {a : α} {cs rest : List Char}

def Bare (cs : List Char) : Prop := ∀ c ∈ cs.head?, Text.isBlank c = false

def IsWord (first more : Char → Bool) (cs : List Char) : Prop :=
  ∃ c ds, cs = c :: ds ∧ first c = true ∧ ∀ d ∈ ds, more d = true

section Reading

theorem orElse_of_some {r : α × List Char} (h : p cs = some r) : orElse p q cs = some r := by
  simp [orElse, h]

theorem orElse_of_none (h : p cs = none) : orElse p q cs = q cs := by
  simp [orElse, h]

theorem andThen_of_some (h : p cs = some (a, rest)) (next : α → Rule β) :
    andThen p next cs = next a rest := by
  simp [andThen, h]

theorem andThen_of_none (h : p cs = none) (next : α → Rule β) : andThen p next cs = none := by
  simp [andThen, h]

theorem blanks_of_bare (h : Bare cs) : blanks cs = some ((), cs) := by
  cases cs with
  | nil => rfl
  | cons c cs => simp [blanks, h c rfl]

theorem blanks_space (h : Bare cs) : blanks (' ' :: cs) = some ((), cs) := by
  have hd := blanks_of_bare h
  have hs : Text.isBlank ' ' = true := rfl
  simp only [blanks] at hd ⊢
  rw [List.dropWhile_cons, if_pos hs, hd]

theorem gap_of_bare (h : Bare cs) : gap cs = none := by
  cases cs with
  | nil => rfl
  | cons c cs => simp [gap, h c rfl]

theorem gap_space (h : Bare cs) : gap (' ' :: cs) = some ((), cs) :=
  blanks_of_bare h

theorem literal_append (word rest : List Char) : literal word (word ++ rest) = some ((), rest) := by
  simp [literal]

theorem literal_of_not {word : List Char} (h : ¬ word <+: cs) : literal word cs = none := by
  simp [literal, h]

theorem mark_append (text : String) (h : Bare rest) :
    mark text (text.toList ++ rest) = some ((), rest) := by
  rw [mark, andThen_of_some (literal_append _ _), blanks_of_bare h]

theorem mark_of_not {text : String} (h : ¬ text.toList <+: cs) : mark text cs = none :=
  andThen_of_none (literal_of_not h) _

theorem padded_of_blanks {mid : List Char} (h : p cs = some (a, mid))
    (hb : blanks mid = some ((), rest)) : padded p cs = some (a, rest) := by
  rw [padded, andThen_of_some h, andThen_of_some hb]
  rfl

theorem padded_of_some (h : p cs = some (a, rest)) (hb : Bare rest) :
    padded p cs = some (a, rest) :=
  padded_of_blanks h (blanks_of_bare hb)

theorem padded_of_none (h : p cs = none) : padded p cs = none :=
  andThen_of_none h _

theorem word_append {first more : Char → Bool} {w : List Char} (hw : IsWord first more w)
    (hr : ∀ d ∈ rest.head?, more d = false) : word first more (w ++ rest) = some (w, rest) := by
  obtain ⟨c, ds, rfl, hc, hds⟩ := hw
  have hrest : rest.takeWhile more = [] ∧ rest.dropWhile more = rest := by
    cases rest with
    | nil => exact ⟨rfl, rfl⟩
    | cons d rest => simp [hr d rfl]
  simp only [word, List.cons_append, hc, if_true]
  rw [List.takeWhile_append_of_pos hds, List.dropWhile_append_of_pos hds, hrest.1, hrest.2,
    List.append_nil]

theorem word_of_not {first more : Char → Bool} (h : ∀ c ∈ cs.head?, first c = false) :
    word first more cs = none := by
  cases cs with
  | nil => rfl
  | cons c cs => simp [word, h c rfl]

theorem optionalList_of_some {p : Rule (List α)} {as : List α} (h : p cs = some (as, rest)) :
    optionalList p cs = some (as, rest) := by
  simp [optionalList, optional, andThen, yield, h]

theorem optionalList_of_none {p : Rule (List α)} (h : p cs = none) :
    optionalList p cs = some ([], cs) := by
  simp [optionalList, optional, andThen, yield, h]

end Reading

section Separated

variable {separator : String} {text : α → List Char} {Follows : List Char → Prop}

def joined (separator : String) (text : α → List Char) (as : List α) : List Char :=
  (separator.toList ++ [' ']).intercalate (as.map text)

def continuation (separator : String) (text : α → List Char) (as : List α) : List Char :=
  as.flatMap fun a => separator.toList ++ ' ' :: text a

theorem joined_cons (separator : String) (text : α → List Char) (a : α) (as : List α) :
    joined separator text (a :: as) = text a ++ continuation separator text as := by
  induction as generalizing a with
  | nil => simp [joined, continuation]
  | cons b as ih =>
    rw [joined, List.map_cons, List.intercalate_cons_of_ne_nil (by simp), ← joined, ih]
    simp [continuation]

theorem bare_joined {as : List α} (has : ∀ a ∈ as, ∀ rest, Bare (text a ++ rest))
    (hr : Bare rest) : Bare (joined separator text as ++ rest) := by
  cases as with
  | nil => exact hr
  | cons a as =>
    rw [joined_cons, List.append_assoc]
    exact has a List.mem_cons_self _

theorem length_le_continuation (separator : String) (text : α → List Char) (as : List α) :
    as.length ≤ (continuation separator text as).length := by
  induction as with
  | nil => simp
  | cons a as ih =>
    simp only [continuation, List.flatMap_cons, List.length_append, List.length_cons] at ih ⊢
    omega

theorem length_le_joined (separator : String) (text : α → List Char) {as : List α} (ha : a ∈ as) :
    (text a).length ≤ (joined separator text as).length := by
  have hcont : ∀ as, a ∈ as → (text a).length ≤ (continuation separator text as).length := by
    intro as ha
    induction as with
    | nil => cases ha
    | cons b as ih =>
      simp only [continuation, List.flatMap_cons, List.length_append, List.length_cons] at ih ⊢
      cases ha with
      | head => omega
      | tail _ ha =>
        have hle := ih ha
        omega
  cases as with
  | nil => cases ha
  | cons b as =>
    rw [joined_cons, List.length_append]
    cases ha with
    | head => omega
    | tail _ ha =>
      have hle := hcont as ha
      omega

theorem follows_continuation (hsep : ∀ cs, Follows (separator.toList ++ ' ' :: cs))
    (hr : Follows rest) (as : List α) : Follows (continuation separator text as ++ rest) := by
  cases as with
  | nil => exact hr
  | cons a as =>
    simp only [continuation, List.flatMap_cons, List.append_assoc, List.cons_append]
    exact hsep _

theorem repeated_continuation {next : Rule α} {as : List α}
    (hnext : ∀ a ∈ as, ∀ rest, Follows rest →
      next (separator.toList ++ ' ' :: text a ++ rest) = some (a, rest))
    (hsep : ∀ cs, Follows (separator.toList ++ ' ' :: cs)) (hr : Follows rest)
    (hend : next rest = none) (limit : Nat) (hl : as.length ≤ limit) :
    repeated next limit (continuation separator text as ++ rest) = (as, rest) := by
  induction as generalizing limit with
  | nil => cases limit <;> simp [continuation, repeated, hend]
  | cons a as ih =>
    cases limit with
    | zero => simp at hl
    | succ limit =>
      have hread := hnext a List.mem_cons_self (continuation separator text as ++ rest)
        (follows_continuation hsep hr as)
      have hrest := ih (fun b hb => hnext b (List.mem_cons_of_mem _ hb)) limit (by simpa using hl)
      have hcons : continuation separator text (a :: as) ++ rest =
          separator.toList ++ ' ' :: text a ++ (continuation separator text as ++ rest) := by
        simp [continuation]
      rw [hcons]
      simp only [repeated, hread, hrest]

/-- A separator, a blank and a value are read as that value. -/
theorem next_append (hsep : ∀ cs, Bare (separator.toList ++ ' ' :: cs))
    (hbare : Bare (text a ++ rest)) (hp : p (text a ++ rest) = some (a, rest)) :
    (andThen blanks fun _ => andThen (mark separator) fun _ => p)
      (separator.toList ++ ' ' :: text a ++ rest) = some (a, rest) := by
  have hmark : mark separator (separator.toList ++ (' ' :: text a ++ rest)) =
      some ((), text a ++ rest) := by
    rw [mark, andThen_of_some (literal_append _ _)]
    exact blanks_space hbare
  rw [List.append_assoc]
  have hstart : Bare (separator.toList ++ (' ' :: text a ++ rest)) := hsep (text a ++ rest)
  rw [andThen_of_some (blanks_of_bare hstart), andThen_of_some hmark, hp]

/-- Values with a separator and a blank between them are read, up to what cannot go on the list. -/
theorem separated_append {as : List α} (hne : as ≠ [])
    (hp : ∀ a ∈ as, ∀ rest, Follows rest → p (text a ++ rest) = some (a, rest))
    (hbare : ∀ a ∈ as, ∀ rest, Bare (text a ++ rest))
    (hsep : ∀ cs, Bare (separator.toList ++ ' ' :: cs))
    (hfollow : ∀ cs, Follows (separator.toList ++ ' ' :: cs))
    (hr : Follows rest) (hrest : Bare rest) (hend : ¬ separator.toList <+: rest) :
    separated separator p (joined separator text as ++ rest) = some (as, rest) := by
  cases as with
  | nil => exact absurd rfl hne
  | cons a as =>
    have hfirst := hp a List.mem_cons_self (continuation separator text as ++ rest)
      (follows_continuation hfollow hr as)
    have hlast : (andThen blanks fun _ => andThen (mark separator) fun _ => p) rest = none := by
      rw [andThen_of_some (blanks_of_bare hrest)]
      exact andThen_of_none (mark_of_not hend) _
    rw [joined_cons, List.append_assoc, separated, andThen_of_some hfirst]
    dsimp only
    rw [repeated_continuation _ hfollow hr hlast]
    · have hl := length_le_continuation separator text as
      rw [List.length_append]
      omega
    · intro b hb rest hr
      have hb' := List.mem_cons_of_mem a hb
      exact next_append hsep (hbare b hb' rest) (hp b hb' rest hr)

end Separated

def Yields (p : Rule α) (P : α → Prop) : Prop :=
  ∀ cs a rest, p cs = some (a, rest) → P a

namespace Yields

variable {P : α → Prop} {Q : β → Prop}

theorem yield (h : P a) : Yields (Rule.yield a) P := by
  intro cs b rest he
  cases he
  exact h

theorem orElse (hp : Yields p P) (hq : Yields q P) : Yields (Rule.orElse p q) P := by
  intro cs a rest he
  unfold Rule.orElse at he
  split at he
  · rename_i r hr
    cases he
    exact hp cs a rest hr
  · exact hq cs a rest he

theorem andThen {next : α → Rule β} (hp : Yields p P) (hn : ∀ a, P a → Yields (next a) Q) :
    Yields (Rule.andThen p next) Q := by
  intro cs b rest he
  unfold Rule.andThen at he
  split at he
  · rename_i a mid hm
    exact hn a (hp cs a mid hm) mid b rest he
  · cases he

theorem any (p : Rule α) : Yields p fun _ => True := fun _ _ _ _ => trivial

theorem padded (hp : Yields p P) : Yields (Rule.padded p) P :=
  hp.andThen fun _ ha => (any _).andThen fun _ _ => yield ha

theorem word (first more : Char → Bool) :
    Yields (Rule.word first more) (IsWord first more) := by
  intro cs w rest he
  cases cs with
  | nil => cases he
  | cons c cs =>
    by_cases hc : first c = true
    · simp only [Rule.word, hc, if_true, Option.some.injEq, Prod.mk.injEq] at he
      exact ⟨c, cs.takeWhile more, he.1.symm, hc, List.all_eq_true.mp List.all_takeWhile⟩
    · simp [Rule.word, hc] at he

theorem repeated (hp : Yields p P) (limit : Nat) (cs : List Char) :
    ∀ a ∈ (Rule.repeated p limit cs).1, P a := by
  induction limit generalizing cs with
  | zero => simp [Rule.repeated]
  | succ limit ih =>
    unfold Rule.repeated
    split
    · simp
    · rename_i a rest ha
      simp only [List.forall_mem_cons]
      exact ⟨hp cs a rest ha, ih rest⟩

theorem separated (hp : Yields p P) (separator : String) :
    Yields (Rule.separated separator p) fun as => ∀ a ∈ as, P a := by
  refine hp.andThen fun a ha cs as rest he => ?_
  cases he
  have hn := (any Rule.blanks).andThen fun _ _ => (any (Rule.mark separator)).andThen fun _ _ => hp
  exact List.forall_mem_cons.mpr ⟨ha, hn.repeated cs.length cs⟩

theorem optionalList {p : Rule (List α)} (hp : Yields p fun as => ∀ a ∈ as, P a) :
    Yields (Rule.optionalList p) fun as => ∀ a ∈ as, P a := by
  intro cs as rest he
  cases hc : p cs with
  | none =>
    rw [optionalList_of_none hc] at he
    cases he
    simp
  | some r =>
    rw [optionalList_of_some hc] at he
    cases he
    exact hp cs r.1 r.2 hc

end Yields

end ReadGuard.Ty.Rule
