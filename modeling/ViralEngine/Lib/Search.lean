/-
  File:      ViralEngine/Lib/Search.lean
  Subject:   SEARCHING A PATTERN IN A TEXT THAT IS CUT AT A MARK. No program fact.

  A pattern that begins and ends with the mark `q` and has it once in between, `q k q c q`, is
  looked for in a text. Whatever the text is, the pattern can only lie between marks: it is there
  exactly where two neighbouring pieces of the text cut at `q` are `k` and `c`. So a search over
  characters becomes a walk over pieces, and no match has to be followed across their borders.

  * `behind` -- what stands behind the first occurrence of a pattern;
  * `entry` -- the piece behind the first neighbours `k`, `c`;
  * `takeWhile_behind` -- the text behind the first occurrence, up to the next mark, is that
    entry;
  * `entry_append`, `entry_exists`, `entry_skip` -- the walk, part by part;
  * `openEntry`, `behind_open` -- the same for a pattern that ends without a mark, `q k q c`;
  * `walk` -- both searches as one walk, with what each looks for behind a piece `k`;
  * `FirstAt`, `UpTo` -- a first place, and a text up to its first letter of a kind, told by what
    they are.
-/
import Mathlib.Data.List.TakeWhile

namespace Viral.Lib

variable {α : Type} [DecidableEq α]

/-! ## 1. The first occurrence -/

/-- What stands behind the first occurrence of `p`. -/
def behind (p : List α) : List α → Option (List α)
  | [] => if p = [] then some [] else none
  | a :: s => if p.isPrefixOf (a :: s) then some ((a :: s).drop p.length) else behind p s

/-- The piece behind the first neighbours `k`, `c`. -/
def entry (k c : List α) : List (List α) → Option (List α)
  | a :: b :: v :: rest => if a = k ∧ b = c then some v else entry k c (b :: v :: rest)
  | _ => none

theorem behind_append (p s : List α) (h : p ≠ []) : behind p (p ++ s) = some s := by
  obtain ⟨a, p', rfl⟩ := List.exists_cons_of_ne_nil h
  show (if (a :: p').isPrefixOf (a :: (p' ++ s)) then some ((a :: p' ++ s).drop (a :: p').length)
    else behind (a :: p') (p' ++ s)) = some s
  have hpre : (a :: p').isPrefixOf (a :: (p' ++ s)) = true :=
    List.isPrefixOf_iff_prefix.mpr (List.prefix_append (a :: p') s)
  rw [if_pos hpre, List.drop_left]

/-- A pattern is not at the front: the first letter is another one, or the rest does not follow. -/
theorem behind_cons_of_not {q a : α} {p s : List α} (h : ¬ (a = q ∧ p <+: s)) :
    behind (q :: p) (a :: s) = behind (q :: p) s := by
  refine if_neg fun hpre => h ?_
  obtain ⟨e, hp⟩ := List.cons_prefix_cons.mp (List.isPrefixOf_iff_prefix.mp hpre)
  exact ⟨e.symm, hp⟩

/-! ## 2. Cutting at the mark -/

/-- A text up to the first mark is its first piece. -/
theorem head_splitOn (q : α) (s : List α) :
    (s.splitOn q).head? = some (s.takeWhile fun b => b ≠ q) := by
  induction s with
  | nil => rfl
  | cons a s ih =>
    rw [List.splitOn_cons_eq_if_modifyHead]
    by_cases ha : a = q
    · simp [ha]
    · simp [ha, List.head?_modifyHead, ih]

/-- The pieces hold no mark. -/
theorem not_mem_of_mem_splitOn {q : α} {s v : List α} (h : v ∈ s.splitOn q) : q ∉ v := by
  induction s generalizing v with
  | nil =>
    rw [List.splitOn_nil, List.mem_singleton] at h
    rw [h]
    exact List.not_mem_nil
  | cons a s ih =>
    rw [List.splitOn_cons_eq_if_modifyHead] at h
    split at h
    · rcases List.mem_cons.mp h with rfl | h
      · exact List.not_mem_nil
      · exact ih h
    · rename_i ha
      cases hs : s.splitOn q with
      | nil => exact absurd hs (List.splitOn_ne_nil q s)
      | cons w ws =>
        rw [hs] at h
        rcases List.mem_cons.mp h with rfl | h
        · intro hq
          rcases List.mem_cons.mp hq with rfl | hq
          · exact ha (beq_self_eq_true _)
          · exact ih (hs ▸ List.mem_cons_self) hq
        · exact ih (hs ▸ List.mem_cons_of_mem w h)

/-- The pattern `q k q c q` without its first mark is at the front of a text exactly when the
    first two pieces are `k` and `c`. -/
theorem front_iff {q : α} {k c s : List α} (hk : q ∉ k) (hc : q ∉ c) :
    (k ++ q :: (c ++ [q])) <+: s ↔ ∃ v rest, s.splitOn q = k :: c :: v :: rest := by
  constructor
  · rintro ⟨r, rfl⟩
    have e : k ++ q :: (c ++ [q]) ++ r = k ++ q :: (c ++ q :: r) := by simp
    rw [e, List.splitOn_append_cons_self_of_not_mem hk, List.splitOn_append_cons_self_of_not_mem hc]
    obtain ⟨v, rest, hr⟩ := List.exists_cons_of_ne_nil (List.splitOn_ne_nil q r)
    exact ⟨v, rest, by rw [hr]⟩
  · rintro ⟨v, rest, h⟩
    have hs : [q].intercalate (k :: c :: v :: rest) = s := h ▸ List.intercalate_splitOn q
    refine ⟨[q].intercalate (v :: rest), ?_⟩
    rw [← hs]
    simp [List.intercalate, List.append_assoc]

/-! ## 3. The walk over the pieces -/

theorem entry_cons_of_not {k c a : List α} {l : List (List α)}
    (h : ¬ ∃ v rest, a :: l = k :: c :: v :: rest) : entry k c (a :: l) = entry k c l := by
  match l with
  | [] => rfl
  | [_] => rfl
  | b :: v :: rest =>
    show (if a = k ∧ b = c then some v else entry k c (b :: v :: rest)) = _
    rw [if_neg]
    rintro ⟨rfl, rfl⟩
    exact h ⟨v, rest, rfl⟩

/-- **The search is a walk over the pieces**: the text behind the first `q k q c q`, up to the next
    mark, is the entry of `k`, `c` in the pieces behind the first mark. -/
theorem takeWhile_behind {q : α} {k c : List α} (hk : q ∉ k) (hc : q ∉ c) (s : List α) :
    (behind (q :: (k ++ q :: (c ++ [q]))) s).map (List.takeWhile fun b => b ≠ q) =
      entry k c (s.splitOn q).tail := by
  induction s with
  | nil => rfl
  | cons a s ih =>
    rw [List.splitOn_cons_eq_if_modifyHead]
    by_cases ha : a = q
    · subst ha
      simp only [beq_self_eq_true, if_true, List.tail_cons]
      by_cases hpre : (k ++ a :: (c ++ [a])) <+: s
      · -- found: behind the pattern stands the third piece
        obtain ⟨r, rfl⟩ := hpre
        have e : a :: (k ++ a :: (c ++ [a]) ++ r) = (a :: (k ++ a :: (c ++ [a]))) ++ r := rfl
        rw [e, behind_append _ _ (List.cons_ne_nil _ _)]
        have e' : k ++ a :: (c ++ [a]) ++ r = k ++ a :: (c ++ a :: r) := by simp
        rw [e', List.splitOn_append_cons_self_of_not_mem hk,
          List.splitOn_append_cons_self_of_not_mem hc]
        obtain ⟨v, rest, hr⟩ := List.exists_cons_of_ne_nil (List.splitOn_ne_nil a r)
        have hv := head_splitOn a r
        rw [hr] at hv ⊢
        have hv' : v = r.takeWhile fun b => b ≠ a := Option.some.inj hv
        rw [hv']
        simp [entry]
      · -- not here: the first piece is passed over
        obtain ⟨x, l, hl⟩ := List.exists_cons_of_ne_nil (List.splitOn_ne_nil a s)
        have hnot : ¬ ∃ v rest, x :: l = k :: c :: v :: rest := by
          rw [← hl, ← front_iff hk hc]
          exact hpre
        rw [behind_cons_of_not fun h => hpre h.2, ih, hl, entry_cons_of_not hnot, List.tail_cons]
    · rw [behind_cons_of_not fun h => ha h.1, ih, if_neg (by simpa using ha)]
      obtain ⟨x, l, hl⟩ := List.exists_cons_of_ne_nil (List.splitOn_ne_nil q s)
      rw [hl]
      rfl

/-- An entry that is found in a part is found in the whole. -/
theorem entry_append {k c v : List α} {l : List (List α)} (h : entry k c l = some v)
    (l' : List (List α)) : entry k c (l ++ l') = some v := by
  fun_induction entry k c l with
  | case1 a b w rest hkey =>
    rw [← h]
    exact if_pos hkey
  | case2 a b w rest hnot ih =>
    rw [← ih h]
    exact if_neg hnot
  | case3 l hshort => cases h

/-- An entry is one of the pieces. -/
theorem entry_mem {k c v : List α} {l : List (List α)} (h : entry k c l = some v) : v ∈ l := by
  fun_induction entry k c l with
  | case1 a b w rest hkey =>
    obtain rfl := Option.some.inj h
    exact List.mem_cons_of_mem a (List.mem_cons_of_mem b List.mem_cons_self)
  | case2 a b w rest hnot ih => exact List.mem_cons_of_mem a (ih h)
  | case3 l hshort => cases h

/-- A key that is there has an entry, its own or an earlier one. -/
theorem entry_exists (k c v : List α) (l l' : List (List α)) :
    ∃ w, entry k c (l ++ k :: c :: v :: l') = some w := by
  induction l with
  | nil => exact ⟨v, if_pos ⟨rfl, rfl⟩⟩
  | cons a l ih =>
    by_cases h : ∃ w rest, a :: (l ++ k :: c :: v :: l') = k :: c :: w :: rest
    · obtain ⟨w, rest, e⟩ := h
      refine ⟨w, ?_⟩
      rw [List.cons_append, e]
      exact if_pos ⟨rfl, rfl⟩
    · obtain ⟨w, hw⟩ := ih
      refine ⟨w, ?_⟩
      rw [List.cons_append, entry_cons_of_not h, hw]

/-- **Behind a part without an entry the walk goes on with its end**: the last two pieces of the
    part may still be the key of the next one, unless what follows begins with a piece `d` other
    than `c`. -/
theorem entry_skip {k c d : List α} {l : List (List α)} (hd : d ≠ c)
    (h : entry k c (l ++ [d]) = none) (l' : List (List α)) :
    entry k c (l ++ d :: l') = entry k c (d :: l') := by
  induction l with
  | nil => rfl
  | cons a l ih =>
    have hnot : ¬ ∃ v rest, a :: (l ++ [d]) = k :: c :: v :: rest := by
      rintro ⟨v, rest, e⟩
      rw [List.cons_append, e] at h
      exact absurd h (by simp [entry])
    have hnone : entry k c (l ++ [d]) = none := by
      rw [List.cons_append, entry_cons_of_not hnot] at h
      exact h
    have hnot' : ¬ ∃ v rest, a :: (l ++ d :: l') = k :: c :: v :: rest := by
      rintro ⟨v, rest, e⟩
      refine hnot ?_
      obtain ⟨hak, htail⟩ := List.cons.inj e
      -- the key is complete in the part, or `d` would have to be `c`
      rcases l with _ | ⟨b, _ | ⟨w, l⟩⟩
      · exact absurd (List.cons.inj htail).1 hd
      · exact ⟨d, [], by rw [hak, (List.cons.inj htail).1]; rfl⟩
      · exact ⟨w, l ++ [d], by rw [hak, (List.cons.inj htail).1]; rfl⟩
    rw [List.cons_append, entry_cons_of_not hnot', ih hnone]

/-! ## 4. A pattern that ends without a mark -/

/-- The pieces joined again. -/
def rejoin (q : α) (l : List (List α)) : List α := [q].intercalate l

theorem rejoin_splitOn (q : α) (s : List α) : rejoin q (s.splitOn q) = s :=
  List.intercalate_splitOn q

/-- The text behind the first neighbours `k` and a piece that begins with `c`, behind that `c`. -/
def openEntry (q : α) (k c : List α) : List (List α) → Option (List α)
  | a :: b :: rest =>
    if a = k ∧ c.isPrefixOf b then some (rejoin q (b.drop c.length :: rest))
    else openEntry q k c (b :: rest)
  | _ => none

/-- A text without a mark stands in front of the first piece. -/
theorem splitOn_append_of_not_mem {q : α} {c : List α} (hc : q ∉ c) (r : List α) :
    (c ++ r).splitOn q = (r.splitOn q).modifyHead (c ++ ·) := by
  induction c with
  | nil =>
    obtain ⟨x, l, hl⟩ := List.exists_cons_of_ne_nil (List.splitOn_ne_nil q r)
    rw [List.nil_append, hl]
    rfl
  | cons b c ih =>
    have hb : ¬ (b == q) = true := by
      rw [beq_iff_eq]
      exact fun e => hc (e ▸ List.mem_cons_self)
    rw [List.cons_append, List.splitOn_cons_eq_if_modifyHead, if_neg hb,
      ih fun h => hc (List.mem_cons_of_mem b h)]
    obtain ⟨x, l, hl⟩ := List.exists_cons_of_ne_nil (List.splitOn_ne_nil q r)
    rw [hl]
    rfl

/-- Such a pattern without its first mark is at the front of a text exactly when the first piece is
    `k` and the second one begins with `c`. -/
theorem front_open_iff {q : α} {k c s : List α} (hk : q ∉ k) (hc : q ∉ c) :
    (k ++ q :: c) <+: s ↔ ∃ b rest, s.splitOn q = k :: b :: rest ∧ c <+: b := by
  constructor
  · rintro ⟨r, rfl⟩
    rw [show k ++ q :: c ++ r = k ++ q :: (c ++ r) by simp,
      List.splitOn_append_cons_self_of_not_mem hk, splitOn_append_of_not_mem hc]
    obtain ⟨x, l, hl⟩ := List.exists_cons_of_ne_nil (List.splitOn_ne_nil q r)
    rw [hl]
    exact ⟨c ++ x, l, rfl, List.prefix_append c x⟩
  · rintro ⟨_, rest, h, x, rfl⟩
    have hs := rejoin_splitOn q s
    rw [h] at hs
    refine ⟨rejoin q (x :: rest), ?_⟩
    rw [← hs]
    cases rest <;> simp [rejoin, List.intercalate, List.append_assoc]

theorem openEntry_cons_of_not {q : α} {k c a : List α} {l : List (List α)}
    (h : ¬ ∃ b rest, a :: l = k :: b :: rest ∧ c <+: b) :
    openEntry q k c (a :: l) = openEntry q k c l := by
  match l with
  | [] => rfl
  | b :: rest =>
    show (if a = k ∧ c.isPrefixOf b then _ else openEntry q k c (b :: rest)) = _
    rw [if_neg]
    rintro ⟨rfl, hb⟩
    exact h ⟨b, rest, rfl, List.isPrefixOf_iff_prefix.mp hb⟩

theorem openEntry_cons_of {q : α} {k c x : List α} {rest : List (List α)} :
    openEntry q k c (k :: (c ++ x) :: rest) = some (rejoin q (x :: rest)) := by
  have hpre : c.isPrefixOf (c ++ x) = true :=
    List.isPrefixOf_iff_prefix.mpr (List.prefix_append c x)
  show (if k = k ∧ c.isPrefixOf (c ++ x) then _ else _) = _
  rw [if_pos ⟨rfl, hpre⟩, List.drop_left]

/-- **The search for `q k q c` is a walk over the pieces** as well. -/
theorem behind_open {q : α} {k c : List α} (hk : q ∉ k) (hc : q ∉ c) (s : List α) :
    behind (q :: (k ++ q :: c)) s = openEntry q k c (s.splitOn q).tail := by
  induction s with
  | nil => rfl
  | cons a s ih =>
    rw [List.splitOn_cons_eq_if_modifyHead]
    by_cases ha : a = q
    · subst ha
      simp only [beq_self_eq_true, if_true, List.tail_cons]
      by_cases hpre : (k ++ a :: c) <+: s
      · -- found
        obtain ⟨r, rfl⟩ := hpre
        have e : a :: (k ++ a :: c ++ r) = (a :: (k ++ a :: c)) ++ r := rfl
        rw [e, behind_append _ _ (List.cons_ne_nil _ _), show k ++ a :: c ++ r =
          k ++ a :: (c ++ r) by simp, List.splitOn_append_cons_self_of_not_mem hk,
          splitOn_append_of_not_mem hc]
        obtain ⟨x, l, hl⟩ := List.exists_cons_of_ne_nil (List.splitOn_ne_nil a r)
        rw [hl]
        show some r = openEntry a k c (k :: (c ++ x) :: l)
        rw [openEntry_cons_of, ← hl, rejoin_splitOn]
      · -- not here: the first piece is passed over
        obtain ⟨x, l, hl⟩ := List.exists_cons_of_ne_nil (List.splitOn_ne_nil a s)
        have hnot : ¬ ∃ b rest, x :: l = k :: b :: rest ∧ c <+: b := by
          rw [← hl, ← front_open_iff hk hc]
          exact hpre
        rw [behind_cons_of_not fun h => hpre h.2, ih, hl, openEntry_cons_of_not hnot,
          List.tail_cons]
    · rw [behind_cons_of_not fun h => ha h.1, ih, if_neg (by simpa using ha)]
      obtain ⟨x, l, hl⟩ := List.exists_cons_of_ne_nil (List.splitOn_ne_nil q s)
      rw [hl]
      rfl

/-! ## 5. Both searches as one walk -/

/-- A walk over the pieces that looks, at each piece `k`, at what follows it. -/
def walk {β : Type} (k : List α) (look : List (List α) → Option β) : List (List α) → Option β
  | [] => none
  | a :: l => if a = k then (look l).or (walk k look l) else walk k look l

/-- What the search for `q k q c q` looks for behind `k`. -/
def lookClosed (c : List α) : List (List α) → Option (List α)
  | b :: v :: _ => if b = c then some v else none
  | _ => none

/-- What the search for `q k q c` looks for behind `k`. -/
def lookOpen (q : α) (c : List α) : List (List α) → Option (List α)
  | b :: rest => if c.isPrefixOf b then some (rejoin q (b.drop c.length :: rest)) else none
  | [] => none

theorem entry_eq_walk (k c : List α) (l : List (List α)) :
    entry k c l = walk k (lookClosed c) l := by
  fun_induction entry k c l with
  | case1 a b v rest h =>
    obtain ⟨rfl, rfl⟩ := h
    simp [walk, lookClosed]
  | case2 a b v rest h ih =>
    rw [ih]
    rcases not_and_or.mp h with h | h <;> simp [walk, lookClosed, h]
  | case3 l hshort =>
    match l with
    | [] => rfl
    | [a] => simp [walk, lookClosed]
    | [a, b] => simp [walk, lookClosed]
    | a :: b :: v :: rest => exact absurd rfl (hshort a b v rest)

theorem openEntry_eq_walk (q : α) (k c : List α) (l : List (List α)) :
    openEntry q k c l = walk k (lookOpen q c) l := by
  fun_induction openEntry q k c l with
  | case1 a b rest h =>
    obtain ⟨rfl, hb⟩ := h
    simp [walk, lookOpen, hb]
  | case2 a b rest h ih =>
    rw [ih]
    rcases not_and_or.mp h with h | h
    · simp [walk, h]
    · simp [walk, lookOpen, h]
  | case3 l hshort =>
    match l with
    | [] => rfl
    | [a] => simp [walk, lookOpen]
    | a :: b :: rest => exact absurd rfl (hshort a b rest)

section Walk

variable {β : Type} {k : List α} {look : List (List α) → Option β}

theorem walk_cons_ne {a : List α} (h : a ≠ k) (l : List (List α)) :
    walk k look (a :: l) = walk k look l := if_neg h

theorem walk_cons_miss {l : List (List α)} (h : look l = none) (a : List α) :
    walk k look (a :: l) = walk k look l := by
  show (if a = k then (look l).or (walk k look l) else walk k look l) = walk k look l
  rw [h, Option.none_or, ite_self]

theorem walk_append_ne {l : List (List α)} (h : ∀ a ∈ l, a ≠ k) (l' : List (List α)) :
    walk k look (l ++ l') = walk k look l' := by
  induction l with
  | nil => rfl
  | cons a l ih =>
    rw [List.cons_append, walk_cons_ne (h a List.mem_cons_self)]
    exact ih fun b hb => h b (List.mem_cons_of_mem a hb)

end Walk

/-! ## 6. A place and a cut, by what they are -/

section Cut

variable {β : Type}

/-- `p` stands in `s` at `i`, and at no place in front of it. -/
def FirstAt (p s : List β) (i : Nat) : Prop := p <+: s.drop i ∧ ∀ j < i, ¬ p <+: s.drop j

/-- `v` is `s` up to its first letter that fails `p`; all of `s`, if none does. -/
def UpTo (p : β → Bool) (s v : List β) : Prop :=
  ∃ rest, s = v ++ rest ∧ (∀ a ∈ v, p a = true) ∧ ∀ a ∈ rest.head?, p a = false

theorem upTo_iff {p : β → Bool} {s v : List β} : UpTo p s v ↔ v = s.takeWhile p := by
  constructor
  · rintro ⟨rest, rfl, hin, hend⟩
    have hrest : rest.takeWhile p = [] := by
      cases rest with
      | nil => rfl
      | cons a rest =>
        refine List.takeWhile_cons_of_neg ?_
        rw [hend a rfl]
        exact Bool.false_ne_true
    rw [List.takeWhile_append_of_pos hin, hrest, List.append_nil]
  · rintro rfl
    refine ⟨s.dropWhile p, List.takeWhile_append_dropWhile.symm,
      fun a ha => List.mem_takeWhile_imp ha, fun a ha => ?_⟩
    have hnot := List.head?_dropWhile_not p s
    rw [Option.mem_def.mp ha] at hnot
    exact hnot

end Cut

end Viral.Lib
