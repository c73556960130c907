/-
  File:      ViralEngine/Storage/Paging.lean
  Subject:   WHETHER THE PAGES OF THE FEED COVER IT.

  Each page of the feed is a query of its own, ordered by `timestamp` alone. Videos with equal
  timestamps may come in another order in every query, so a video may stand in two pages, and
  another in none. The offset of a page is an `int`.

  * `page`, `Covers` -- the pages one behind the other, and that they list every video once;
  * `feedTimes`, `PagesFit` -- **the condition**: the timestamp drops at every page boundary, and
    the offsets are in the range of `int`;
  * `feedPage`, `exists_visit` -- a page is a window of some descending order, and of any;
  * `pagingCovers` -- **exactly then the pages cover the feed.**
-/
import ViralEngine.Lib.Windows
import ViralEngine.Storage.Batch

namespace Viral.Storage

open Viral.Lib Viral.Lib.Sql

/-! ## 1. Pages -/

/-- `getFeedVideos(p, j * p)`, the `j`th query. -/
def page (db : Db) (visits : Nat → Visit) (p : Int32) (j : Nat) : List VideoItem :=
  getFeedVideos db (visits j) p (Int32.ofInt (j * p.toInt))

/-- **The pages up to the first empty one list every video exactly once.** -/
def Covers (db : Db) (visits : Nat → Visit) (p : Int32) (videos : List VideoItem) : Prop :=
  ∃ n, page db visits p n = [] ∧ (∀ j < n, page db visits p j ≠ []) ∧
    ((List.range n).flatMap (page db visits p)).Perm videos

/-- The column the feed is ordered by. -/
def time (v : VideoItem) : Int := v.timestamp.toInt

/-- The timestamps in descending order. -/
def feedTimes (videos : List VideoItem) : List Int :=
  (videos.map time).insertionSort (· ≥ ·)

/-- **The condition.** At no page boundary two videos with equal timestamps meet, and the offset
    behind every page that is not empty is in the range of `int`. -/
structure PagesFit (p : Int32) (videos : List VideoItem) : Prop where
  drops : ∀ j, ¬ TiesAt (feedTimes videos) (j * p.toInt.toNat)
  offsets : ∀ j, j * p.toInt.toNat < videos.length → (j + 1) * p.toInt.toNat < 2 ^ 31

/-- An offset in the range of `int`. -/
theorem offset_exact {p : Int32} (hp : 1 ≤ p.toInt) {j : Nat} (h : j * p.toInt.toNat < 2 ^ 31) :
    (Int32.ofInt (j * p.toInt)).toInt.toNat = j * p.toInt.toNat := by
  have hcast : ((j * p.toInt.toNat : Nat) : Int) = j * p.toInt := by
    rw [Int.natCast_mul, Int.toNat_of_nonneg (by omega)]
  have hwrap := Int.bmod_add_bdiv (j * p.toInt) (2 ^ 32)
  have hlo := (Int32.ofInt (j * p.toInt)).le_toInt
  have hhi := (Int32.ofInt (j * p.toInt)).toInt_lt
  rw [Int32.toInt_ofInt] at hlo hhi ⊢
  have hsize : Int32.size = 2 ^ 32 := rfl
  rw [hsize] at hlo hhi ⊢
  omega

/-- The first offset beyond it is negative, and SQLite takes it for 0. -/
theorem offset_wraps {p : Int32} (hp : 1 ≤ p.toInt) {j : Nat}
    (hlo : 2 ^ 31 ≤ (j + 1) * p.toInt.toNat) (hhi : j * p.toInt.toNat < 2 ^ 31) :
    (Int32.ofInt ((j + 1 : Nat) * p.toInt)).toInt.toNat = 0 := by
  have hcast : (((j + 1) * p.toInt.toNat : Nat) : Int) = (j + 1 : Nat) * p.toInt := by
    rw [Int.natCast_mul, Int.toNat_of_nonneg (by omega)]
  have hwrap := Int.bmod_add_bdiv ((j + 1 : Nat) * p.toInt) (2 ^ 32)
  have h1 := (Int32.ofInt ((j + 1 : Nat) * p.toInt)).le_toInt
  have h2 := (Int32.ofInt ((j + 1 : Nat) * p.toInt)).toInt_lt
  have hmax := p.toInt_lt
  rw [Nat.succ_mul] at hlo hcast
  rw [Int32.toInt_ofInt] at h1 h2 ⊢
  have hsize : Int32.size = 2 ^ 32 := rfl
  rw [hsize] at h1 h2 ⊢
  omega

/-! ## 2. A page is a window -/

section Pages

variable {c : Contents} {videos : List VideoItem} (hc : c.videos = videos.map VideoItem.row)
  (hids : (videos.map VideoItem.id).Nodup) (hclean : ∀ v ∈ videos, v.Clean)

include hc hids hclean

/-- **A page is a window of some descending order of the videos.** -/
theorem feedPage (visit : Visit) :
    ∃ l : List VideoItem, l.Perm videos ∧ Falling time l ∧
      (visit.order c.videos).insertionSort (Descending 9) = l.map VideoItem.row ∧
      ∀ limit offset : Int32, 0 ≤ limit.toInt →
        getFeedVideos (c.db false) visit limit offset =
          (l.drop offset.toInt.toNat).take limit.toInt.toNat := by
  have hlists := lists_find hids
  have hholds : Holds VideoItem.row VideoItem.id VideoItem.Clean _ c.videos :=
    ⟨videos, hc, hlists, hclean⟩
  obtain ⟨l, heq, hl, hnewest, hread⟩ :=
    (hholds.perm (fun _ => readVideo_row) (visit.perm c.videos)).sorted (i := 9)
      (fun _ => readVideo_row) (fun v => (rfl : _ = v.timestamp.toInt))
  refine ⟨l, hl.unique hlists, ?_, heq, fun limit offset hlimit => ?_⟩
  · exact List.Pairwise.imp (fun h => Int64.le_iff_toInt_le.mp h) hnewest
  · rw [getFeedVideos_db, heq, map_cut hread hlimit]
    rfl

end Pages

/-- **Every descending order may come.** -/
theorem exists_visit {videos l : List VideoItem} (hl : l.Perm videos) (hfalling : Falling time l) :
    ∃ visit : Visit, (visit.order (videos.map VideoItem.row)).insertionSort (Descending 9) =
      l.map VideoItem.row := by
  refine ⟨⟨fun rows => if rows = videos.map VideoItem.row then l.map VideoItem.row else rows,
    fun rows => ?_⟩, ?_⟩
  · split
    · rename_i h
      rw [h]
      exact hl.map _
    · exact List.Perm.refl _
  · dsimp only
    rw [if_pos rfl]
    exact List.Pairwise.insertionSort_eq (List.pairwise_map.mpr hfalling)

theorem feedTimes_eq {videos l : List VideoItem} (hl : l.Perm videos)
    (hfalling : Falling time l) : feedTimes videos = l.map time := by
  refine List.Perm.eq_of_pairwise' (List.pairwise_insertionSort _ _) (falling_map.mp hfalling) ?_
  exact (List.perm_insertionSort _ _).trans (hl.map time).symm

/-! ## 3. When the pages cover the feed -/

/-- No video stands in two pages. -/
theorem Covers.disjoint {db : Db} {visits : Nat → Visit} {p : Int32} {videos : List VideoItem}
    (hnodup : videos.Nodup) {n : Nat}
    (hperm : ((List.range n).flatMap (page db visits p)).Perm videos) {i j : Nat} (hij : i < j)
    (hj : j < n) {v : VideoItem} (hi : v ∈ page db visits p i) : v ∉ page db visits p j := by
  have hdisjoint := (List.nodup_flatMap.mp (hperm.nodup_iff.mpr hnodup)).2
  have hget := List.pairwise_iff_getElem.mp hdisjoint i j
    (by rw [List.length_range]; omega) (by rw [List.length_range]; exact hj) hij
  rw [List.getElem_range, List.getElem_range] at hget
  exact hget hi

section Main

variable {c : Contents} {videos : List VideoItem} (hc : c.videos = videos.map VideoItem.row)
  (hids : (videos.map VideoItem.id).Nodup) (hclean : ∀ v ∈ videos, v.Clean) {p : Int32}
  (hp : 1 ≤ p.toInt)

include hc hids hclean hp

/-- A page whose offset is in range. -/
theorem page_window (visits : Nat → Visit) {j : Nat} (hj : j * p.toInt.toNat < 2 ^ 31) :
    ∃ l : List VideoItem, l.Perm videos ∧ Falling time l ∧
      ((visits j).order c.videos).insertionSort (Descending 9) = l.map VideoItem.row ∧
      page (c.db false) visits p j = window p.toInt.toNat j l := by
  obtain ⟨l, hl, hfalling, heq, hpage⟩ := feedPage hc hids hclean (visits j)
  refine ⟨l, hl, hfalling, heq, ?_⟩
  unfold page window
  rw [hpage _ _ (by omega), offset_exact hp hj]

/-- The pages end behind the last video. -/
theorem page_empty_iff {visits : Nat → Visit} {j : Nat} (hj : j * p.toInt.toNat < 2 ^ 31) :
    page (c.db false) visits p j = [] ↔ videos.length ≤ j * p.toInt.toNat := by
  obtain ⟨l, hl, _, _, hpage⟩ := page_window hc hids hclean hp visits hj
  rw [hpage, window_eq_nil (by omega), hl.length_eq]

theorem covers_of_fit (hfit : PagesFit p videos) (visits : Nat → Visit) :
    Covers (c.db false) visits p videos := by
  have hP : 0 < p.toInt.toNat := by omega
  -- the first page that starts behind the last video
  have hex : ∃ n, videos.length ≤ n * p.toInt.toNat :=
    ⟨videos.length, Nat.le_mul_of_pos_right _ hP⟩
  have hbefore : ∀ j < Nat.find hex, j * p.toInt.toNat < videos.length :=
    fun j hj => not_le.mp (Nat.find_min hex hj)
  have hrange : ∀ j ≤ Nat.find hex, j * p.toInt.toNat < 2 ^ 31 := by
    intro j hj
    cases j with
    | zero => omega
    | succ i => exact hfit.offsets i (hbefore i (by omega))
  refine ⟨Nat.find hex, ?_, fun j hj => ?_, ?_⟩
  · exact (page_empty_iff hc hids hclean hp (hrange _ (Nat.le_refl _))).mpr (Nat.find_spec hex)
  · rw [ne_eq, page_empty_iff hc hids hclean hp (hrange j (by omega))]
    exact not_le.mpr (hbefore j hj)
  · have horder : ∀ j, ∃ l : List VideoItem, l.Perm videos ∧ Falling time l ∧
        (j < Nat.find hex → page (c.db false) visits p j = window p.toInt.toNat j l) := by
      intro j
      by_cases hj : j < Nat.find hex
      · obtain ⟨l, hl, hfalling, _, hpage⟩ :=
          page_window hc hids hclean hp visits (hrange j (by omega))
        exact ⟨l, hl, hfalling, fun _ => hpage⟩
      · obtain ⟨l, hl, hfalling, _⟩ := feedPage hc hids hclean (visits 0)
        exact ⟨l, hl, hfalling, fun h => absurd h hj⟩
    choose order hperm hfalling hpage using horder
    have hdrops : ∀ j, ¬ TiesAt ((order 0).map time) (j * p.toInt.toNat) := by
      intro j
      rw [← feedTimes_eq (hperm 0) (hfalling 0)]
      exact hfit.drops j
    have hwindows := windows_perm (fun j => (hperm j).trans (hperm 0).symm) hfalling
      (hfalling 0) hdrops (Nat.find hex)
    have hsame : (List.range (Nat.find hex)).flatMap (page (c.db false) visits p) =
        (List.range (Nat.find hex)).flatMap fun j => window p.toInt.toNat j (order j) :=
      List.flatMap_congr fun j hj => hpage j (List.mem_range.mp hj)
    rw [hsame]
    refine hwindows.trans ?_
    rw [List.take_of_length_le (by rw [(hperm 0).length_eq]; exact Nat.find_spec hex)]
    exact hperm 0

/-- The pages do not end before the last video. -/
theorem Covers.beyond {visits : Nat → Visit} {n j : Nat}
    (hempty : page (c.db false) visits p n = []) (hj : j * p.toInt.toNat < 2 ^ 31)
    (hlen : j * p.toInt.toNat < videos.length) : j < n := by
  by_contra hle
  have hn : n * p.toInt.toNat ≤ j * p.toInt.toNat := Nat.mul_le_mul_right _ (not_lt.mp hle)
  have hall := (page_empty_iff hc hids hclean hp (by omega)).mp hempty
  omega

/-- **An offset beyond the range of `int`** brings the first page again. -/
theorem offsets_of_covers
    (hcovers : ∀ visits, Covers (c.db false) visits p videos) {j : Nat}
    (hlen : j * p.toInt.toNat < videos.length) : (j + 1) * p.toInt.toNat < 2 ^ 31 := by
  induction j with
  | zero =>
    have hmax := p.toInt_lt
    omega
  | succ i ih =>
    have hi : (i + 1) * p.toInt.toNat < 2 ^ 31 := by
      refine ih ?_
      rw [Nat.succ_mul] at hlen
      omega
    by_contra hout
    obtain ⟨n, hempty, hfull, hperm⟩ := hcovers fun _ => Visit.stored
    have hn : i + 1 < n := Covers.beyond hc hids hclean hp hempty hi hlen
    obtain ⟨l, hl, _, _, hpage⟩ := feedPage hc hids hclean Visit.stored
    have hzero : page (c.db false) (fun _ => Visit.stored) p 0 = l.take p.toInt.toNat := by
      unfold page
      rw [hpage _ _ (by omega), offset_exact hp (by omega), Nat.zero_mul, List.drop_zero]
    have hagain : page (c.db false) (fun _ => Visit.stored) p (i + 2) = l.take p.toInt.toNat := by
      unfold page
      rw [hpage _ _ (by omega), offset_wraps hp (not_lt.mp hout) hi, List.drop_zero]
    have hmore : i + 2 < n := by
      by_contra hle
      have heq : i + 2 = n := by omega
      rw [heq, hempty] at hagain
      exact hfull 0 (by omega) (hzero.trans hagain.symm)
    obtain ⟨v, hv⟩ := List.exists_mem_of_ne_nil _ (hfull 0 (by omega))
    refine Covers.disjoint hids.of_map hperm (Nat.zero_lt_succ (i + 1)) hmore hv ?_
    rw [hagain, ← hzero]
    exact hv

/-- **A tie at a page boundary**: one of the two videos stands in both pages, if the second query
    swaps them. -/
theorem drops_of_covers (hcovers : ∀ visits, Covers (c.db false) visits p videos) (j : Nat) :
    ¬ TiesAt (feedTimes videos) (j * p.toInt.toNat) := by
  intro htie
  obtain ⟨l, hl, hfalling, heq, hpage⟩ := feedPage hc hids hclean Visit.stored
  rw [feedTimes_eq hl hfalling] at htie
  obtain ⟨l', hl', hfalling', hswap⟩ := swap_tie hfalling htie
  obtain ⟨hpos, hlt, _⟩ := htie
  rw [List.length_map] at hlt
  obtain ⟨i, rfl⟩ : ∃ i, j = i + 1 := by
    cases j with
    | zero => omega
    | succ i => exact ⟨i, rfl⟩
  have hlen : (i + 1) * p.toInt.toNat < videos.length := by
    rw [← hl.length_eq]
    exact hlt
  have hlen' : i * p.toInt.toNat < videos.length := by
    rw [Nat.succ_mul] at hlen
    omega
  have hrange := offsets_of_covers hc hids hclean hp hcovers hlen'
  obtain ⟨visit, hvisit⟩ := exists_visit (hl'.trans hl) hfalling'
  obtain ⟨n, hempty, _, hperm⟩ :=
    hcovers fun k => if k = i + 1 then visit else Visit.stored
  have hn : i + 1 < n := Covers.beyond hc hids hclean hp hempty hrange hlen
  have hinj : ∀ {k k' : List VideoItem}, k.map VideoItem.row = k'.map VideoItem.row → k = k' :=
    fun h => List.map_injective_iff.mpr (fun _ _ => videoRow_inj) h
  obtain ⟨l1, _, _, heq1, hpage1⟩ :=
    page_window hc hids hclean hp (fun k => if k = i + 1 then visit else .stored) (j := i)
      (by rw [Nat.succ_mul] at hrange; omega)
  obtain ⟨l2, _, _, heq2, hpage2⟩ :=
    page_window hc hids hclean hp (fun k => if k = i + 1 then visit else .stored) hrange
  rw [if_neg (by omega), heq] at heq1
  rw [if_pos rfl, hc, hvisit] at heq2
  have e1 := hinj heq1
  have e2 := hinj heq2
  subst e1 e2
  -- the last video of the one page is the first of the next
  have hk : (i + 1) * p.toInt.toNat - 1 < l.length := by omega
  have hfirst : l[(i + 1) * p.toInt.toNat - 1] ∈ window p.toInt.toNat i l := by
    refine mem_window ?_ (by omega) hk
    rw [Nat.succ_mul]
    omega
  have hlt' : (i + 1) * p.toInt.toNat < l'.length := by
    rw [hl'.length_eq]
    exact hlt
  have hsecond : l'[(i + 1) * p.toInt.toNat] ∈ window p.toInt.toNat (i + 1) l' := by
    refine mem_window (Nat.le_refl _) ?_ hlt'
    rw [Nat.succ_mul (i + 1)]
    omega
  have hsame : l'[(i + 1) * p.toInt.toNat] = l[(i + 1) * p.toInt.toNat - 1] := by
    rw [List.getElem?_eq_getElem hlt', List.getElem?_eq_getElem hk] at hswap
    exact Option.some.inj hswap
  rw [hsame, ← hpage2] at hsecond
  rw [← hpage1] at hfirst
  exact Covers.disjoint hids.of_map hperm (Nat.lt_succ_self i) hn hfirst hsecond

/-- **When the pages cover the feed**, in whatever order SQLite brings videos that tie. -/
theorem pagingCovers :
    (∀ visits, Covers (c.db false) visits p videos) ↔ PagesFit p videos :=
  ⟨fun h => ⟨drops_of_covers hc hids hclean hp h,
    fun _ hlen => offsets_of_covers hc hids hclean hp h hlen⟩,
    fun h visits => covers_of_fit hc hids hclean hp h visits⟩

end Main

/-- A video with this timestamp. -/
def videoAt (id : String) (timestamp : Int64) : VideoItem :=
  ⟨ascii id, [], [], [], [], [], 0, 0, 0, timestamp, false, false⟩

/-- Three videos, two of them from the same millisecond, in pages of two: the tie is inside the
    first page. -/
def insideTie : List VideoItem := [videoAt "a" 7, videoAt "b" 7, videoAt "c" 3]

theorem pagingCovers_inside : PagesFit 2 insideTie ∧
    ∀ visits, Covers (Contents.db ⟨insideTie.map VideoItem.row, [], [], [], []⟩ false) visits 2
      insideTie := by
  have hfit : PagesFit 2 insideTie := by
    refine ⟨fun j htie => ?_, fun j hj => ?_⟩
    · have hlt : j * 2 < 3 := htie.2.1
      have hpos : 0 < j * 2 := htie.1
      have hj : j = 1 := by omega
      subst hj
      exact absurd htie.2.2 (by decide)
    · have hlt : j * 2 < 3 := hj
      show (j + 1) * 2 < 2 ^ 31
      omega
  exact ⟨hfit, (pagingCovers (c := ⟨insideTie.map VideoItem.row, [], [], [], []⟩) rfl
    (by decide) (by decide) (by decide)).mpr hfit⟩

/-- The second query goes through the table from the end. -/
def secondReversed (j : Nat) : Visit :=
  if j = 1 then ⟨List.reverse, fun rows => List.reverse_perm rows⟩ else .stored

/-- Two videos from the same millisecond, in pages of one. -/
def acrossTie : List VideoItem := [videoAt "a" 7, videoAt "b" 7]

/-- **A tie across a page boundary**: the first video comes twice and the second one never. -/
theorem pagingCovers_across :
    page (Contents.db ⟨acrossTie.map VideoItem.row, [], [], [], []⟩ false) secondReversed 1 0 =
      [videoAt "a" 7] ∧
    page (Contents.db ⟨acrossTie.map VideoItem.row, [], [], [], []⟩ false) secondReversed 1 1 =
      [videoAt "a" 7] ∧
    ¬ Covers (Contents.db ⟨acrossTie.map VideoItem.row, [], [], [], []⟩ false) secondReversed 1
      acrossTie := by
  have hpages : ∀ j, page (Contents.db ⟨acrossTie.map VideoItem.row, [], [], [], []⟩ false)
      secondReversed 1 j = _ := fun j => getFeedVideos_db _ _ _ _
  have h0 : page (Contents.db ⟨acrossTie.map VideoItem.row, [], [], [], []⟩ false)
      secondReversed 1 0 = [videoAt "a" 7] := (hpages 0).trans (by decide +kernel)
  have h1 : page (Contents.db ⟨acrossTie.map VideoItem.row, [], [], [], []⟩ false)
      secondReversed 1 1 = [videoAt "a" 7] := (hpages 1).trans (by decide +kernel)
  refine ⟨h0, h1, fun hcovers => ?_⟩
  obtain ⟨n, hempty, _, hperm⟩ := hcovers
  have hn : 1 < n := by
    rcases Nat.lt_or_ge 1 n with h | h
    · exact h
    · have h01 : n = 0 ∨ n = 1 := by omega
      rcases h01 with rfl | rfl
      · rw [h0] at hempty
        cases hempty
      · rw [h1] at hempty
        cases hempty
  refine Covers.disjoint (by decide) hperm (Nat.zero_lt_one) hn (v := videoAt "a" 7) ?_ ?_
  · rw [h0]
    exact List.mem_singleton_self _
  · rw [h1]
    exact List.mem_singleton_self _

end Viral.Storage
