import Gale.Heap
import Gale.Lib.Circular

namespace Gale.Heap

open Function Lib

structure Bucket (s : ZHeap) (bidx : Nat) (nodes : List Nat) : Prop where
  circular : Circular s.nextFree s.prevFree nodes
  nodup : nodes.Nodup
  head : s.buckets bidx = nodes.head?.getD 0
  avail : s.availBuckets bidx = true ↔ nodes ≠ []

structure Listed (cfg : Config) (s : ZHeap) (listed : Finset Nat) : Prop where
  bucket : ∀ bidx < cfg.nbBuckets s.endChunk, ∃ nodes, Bucket s bidx nodes ∧
    ∀ c, c ∈ nodes ↔ c ∈ listed ∧ cfg.bucketIdx s.endChunk (s.size c) = bidx
  beyond : ∀ bidx, cfg.nbBuckets s.endChunk ≤ bidx → s.availBuckets bidx = false
  ne_zero : ∀ c ∈ listed, c ≠ 0
  min_le : ∀ c ∈ listed, cfg.minChunkSize s.endChunk ≤ s.size c
  le_end : ∀ c ∈ listed, s.size c ≤ s.endChunk

structure SameChunks (s next : ZHeap) : Prop where
  base : next.base = s.base
  endChunk : next.endChunk = s.endChunk
  leftSize : next.leftSize = s.leftSize
  size : next.size = s.size
  used : next.used = s.used
  failed : next.failed = s.failed

namespace SameChunks

theorem refl (s : ZHeap) : SameChunks s s := ⟨rfl, rfl, rfl, rfl, rfl, rfl⟩

theorem trans {s mid next : ZHeap} (h : SameChunks s mid) (h' : SameChunks mid next) : SameChunks s next :=
  ⟨h'.base.trans h.base, h'.endChunk.trans h.endChunk, h'.leftSize.trans h.leftSize,
    h'.size.trans h.size, h'.used.trans h.used, h'.failed.trans h.failed⟩

end SameChunks

theorem Config.bucketIdx_mono (cfg : Config) (ec : Nat) {sz other : Nat} (h : sz ≤ other) :
    cfg.bucketIdx ec sz ≤ cfg.bucketIdx ec other := by
  unfold bucketIdx
  rw [Nat.log2_eq_log_two, Nat.log2_eq_log_two]
  exact Nat.log_mono_right (by omega)

theorem Config.bucketIdx_lt_nbBuckets (cfg : Config) {endChunk sz : Nat} (h : sz ≤ endChunk) :
    cfg.bucketIdx endChunk sz < cfg.nbBuckets endChunk :=
  Nat.lt_succ_of_le (cfg.bucketIdx_mono endChunk h)

@[simp] theorem ZHeap.check_true (s : ZHeap) : s.check true = s := rfl

variable {s : ZHeap} {c : Nat}

theorem ZHeap.check_of {ok : Bool} (h : ok = true) : s.check ok = s := by
  rw [h, check_true]

namespace Bucket

variable {s : ZHeap} {bidx : Nat} {nodes : List Nat} {c : Nat}

theorem nil (hb : s.buckets bidx = 0) (ha : s.availBuckets bidx = false) : Bucket s bidx [] :=
  ⟨Circular.nil, List.nodup_nil, hb, by simp [ha]⟩

theorem head_mem (h : Bucket s bidx nodes) (hne : nodes ≠ []) : s.buckets bidx ∈ nodes := by
  cases nodes with
  | nil => exact absurd rfl hne
  | cons first rest => simp [h.head]

theorem exists_cons (h : Bucket s bidx nodes) (hmem : c ∈ nodes) :
    ∃ rest, Circular s.nextFree s.prevFree (c :: rest) ∧ (c :: rest).Nodup ∧ ∀ d, d ∈ nodes ↔ d = c ∨ d ∈ rest := by
  obtain ⟨rest, hr⟩ := Circular.exists_rotated_cons hmem
  refine ⟨rest, h.circular.rotate hr, hr.nodup_iff.mp h.nodup, fun d => ?_⟩
  rw [hr.perm.mem_iff, List.mem_cons]

theorem congr {next : ZHeap} (h : Bucket s bidx nodes) (hb : next.buckets bidx = s.buckets bidx)
    (ha : next.availBuckets bidx = s.availBuckets bidx)
    (hn : ∀ d ∈ nodes, next.nextFree d = s.nextFree d)
    (hp : ∀ d ∈ nodes, next.prevFree d = s.prevFree d) : Bucket next bidx nodes where
  circular := h.circular.congr hn hp
  nodup := h.nodup
  head := hb.trans h.head
  avail := by rw [ha, h.avail]

section

variable (cfg : Config) (h : Bucket s bidx nodes) (hmem : c ∈ nodes)
include cfg h hmem

theorem freeListRemoveBidx_eq (hne : s.nextFree c ≠ c) : s.freeListRemoveBidx cfg c bidx = { s with
        buckets := update s.buckets bidx (s.nextFree c)
        nextFree := update s.nextFree (s.prevFree c) (s.nextFree c)
        prevFree := update s.prevFree (s.nextFree c) (s.prevFree c) } := by
  obtain ⟨-, -, hb, hf⟩ := h.circular.links_of_mem hmem
  unfold ZHeap.freeListRemoveBidx
  rw [if_neg hne]
  dsimp only
  rw [ZHeap.check_of (by simp [hb, hf])]
  rfl

theorem freeListRemoveBidx_sameChunks : SameChunks s (s.freeListRemoveBidx cfg c bidx) := by
  by_cases hs : s.nextFree c = c
  · unfold ZHeap.freeListRemoveBidx
    rw [if_pos hs]
    exact ⟨rfl, rfl, rfl, rfl, rfl, rfl⟩
  · rw [h.freeListRemoveBidx_eq cfg hmem hs]
    exact ⟨rfl, rfl, rfl, rfl, rfl, rfl⟩

theorem freeListRemoveBidx : ∃ rest, Bucket (s.freeListRemoveBidx cfg c bidx) bidx rest ∧
      ∀ d, d ∈ rest ↔ d ∈ nodes ∧ d ≠ c := by
  obtain ⟨rest, hc, hn, hmem_iff⟩ := h.exists_cons hmem
  have hs := hc.next_eq_self_iff hn
  have hr : ∀ d, d ∈ rest ↔ d ∈ nodes ∧ d ≠ c := by
    intro d
    rw [hmem_iff]
    have hnt := (List.nodup_cons.mp hn).1
    constructor
    · intro hd
      exact ⟨.inr hd, by rintro rfl; exact hnt hd⟩
    · rintro ⟨rfl | hd, hne⟩
      · exact absurd rfl hne
      · exact hd
  refine ⟨rest, ?_, hr⟩
  by_cases hnx : s.nextFree c = c
  · rw [hs.mp hnx]
    unfold ZHeap.freeListRemoveBidx
    rw [if_pos hnx]
    exact nil (update_self ..) (update_self ..)
  · have hne : rest ≠ [] := fun hnl => hnx (hs.mpr hnl)
    obtain ⟨hh, hcr⟩ := hc.remove hn hne
    rw [h.freeListRemoveBidx_eq cfg hmem hnx]
    refine ⟨hcr, (List.nodup_cons.mp hn).2, ?_, ?_⟩
    · simp [hh]
    · have ha := h.avail.mpr (List.ne_nil_of_mem hmem)
      simp [ha, hne]

theorem freeListRemoveBidx_other {o : Nat} {others : List Nat} (ho : Bucket s o others)
    (hne : o ≠ bidx) (hds : ∀ d ∈ others, d ∉ nodes) :
    Bucket (s.freeListRemoveBidx cfg c bidx) o others := by
  by_cases hn : s.nextFree c = c
  · unfold ZHeap.freeListRemoveBidx
    rw [if_pos hn]
    exact ho.congr (update_of_ne hne _ _) (update_of_ne hne _ _)
      (fun _ _ => rfl) (fun _ _ => rfl)
  · rw [h.freeListRemoveBidx_eq cfg hmem hn]
    obtain ⟨hnext_mem, hprev_mem, -, -⟩ := h.circular.links_of_mem hmem
    refine ho.congr (update_of_ne hne _ _) rfl ?_ ?_
    · intro d hd
      refine update_of_ne ?_ _ _
      rintro rfl
      exact hds _ hd hprev_mem
    · intro d hd
      refine update_of_ne ?_ _ _
      rintro rfl
      exact hds _ hd hnext_mem

end

theorem freeListAddBidx_eq_of_nil (cfg : Config) (h : Bucket s bidx []) (c : Nat) :
    s.freeListAddBidx cfg c bidx = { s with
        availBuckets := update s.availBuckets bidx true
        buckets := update s.buckets bidx c
        prevFree := update s.prevFree c c
        nextFree := update s.nextFree c c } := by
  unfold ZHeap.freeListAddBidx
  rw [if_pos (by simpa using h.head)]
  rfl

section

variable (cfg : Config) (h : Bucket s bidx nodes)
include cfg h

theorem freeListAddBidx_eq (hne : nodes ≠ []) (hz : 0 ∉ nodes) (c : Nat) : s.freeListAddBidx cfg c bidx = { s with
        nextFree := update (update s.nextFree c (s.buckets bidx))
          (s.prevFree (s.buckets bidx)) c
        prevFree := update (update s.prevFree c (s.prevFree (s.buckets bidx)))
          (s.buckets bidx) c } := by
  have hh := h.head_mem hne
  have hb : s.buckets bidx ≠ 0 := by
    intro heq
    exact hz (heq ▸ hh)
  obtain ⟨-, -, -, hf⟩ := h.circular.links_of_mem hh
  unfold ZHeap.freeListAddBidx
  rw [if_neg hb]
  dsimp only
  rw [ZHeap.check_of (by simp [hf])]
  rfl

theorem freeListAddBidx_sameChunks (hz : 0 ∉ nodes) (c : Nat) : SameChunks s (s.freeListAddBidx cfg c bidx) := by
  cases nodes with
  | nil =>
    rw [h.freeListAddBidx_eq_of_nil cfg c]
    exact ⟨rfl, rfl, rfl, rfl, rfl, rfl⟩
  | cons first rest =>
    rw [h.freeListAddBidx_eq cfg (by simp) hz c]
    exact ⟨rfl, rfl, rfl, rfl, rfl, rfl⟩

theorem freeListAddBidx (hz : 0 ∉ nodes) (hc : c ∉ nodes) :
    Bucket (s.freeListAddBidx cfg c bidx) bidx (nodes ++ [c]) := by
  cases nodes with
  | nil =>
    rw [h.freeListAddBidx_eq_of_nil cfg c]
    exact ⟨Circular.singleton_iff.mpr ⟨update_self .., update_self ..⟩, by simp, by simp, by simp⟩
  | cons first rest =>
    have hh := h.head
    have ha := h.avail.mpr (by simp)
    rw [h.freeListAddBidx_eq cfg (by simp) hz c]
    refine ⟨?_, ?_, ?_, ?_⟩
    · refine h.circular.append h.nodup ?_ hc
      simpa using hh.symm
    · rw [← List.concat_eq_append]
      exact h.nodup.concat hc
    · simpa using hh
    · simp [ha]

theorem freeListAddBidx_other (hz : 0 ∉ nodes) {o : Nat} {others : List Nat}
    (ho : Bucket s o others) (hne : o ≠ bidx) (hds : ∀ d ∈ others, d ∉ nodes)
    (hc : c ∉ others) :
    Bucket (s.freeListAddBidx cfg c bidx) o others := by
  have hc_ne : ∀ d ∈ others, d ≠ c := by
    rintro d hd rfl
    exact hc hd
  cases nodes with
  | nil =>
    rw [h.freeListAddBidx_eq_of_nil cfg c]
    exact ho.congr (update_of_ne hne _ _) (update_of_ne hne _ _)
      (fun d hd => update_of_ne (hc_ne d hd) _ _)
      (fun d hd => update_of_ne (hc_ne d hd) _ _)
  | cons first rest =>
    have hh := h.head_mem (by simp)
    obtain ⟨-, hprev_mem, -, -⟩ := h.circular.links_of_mem hh
    rw [h.freeListAddBidx_eq cfg (by simp) hz c]
    refine ho.congr rfl rfl ?_ ?_
    · intro d hd
      have hd_ne : d ≠ s.prevFree (s.buckets bidx) := by
        rintro rfl
        exact hds _ hd hprev_mem
      simp [update_of_ne hd_ne, update_of_ne (hc_ne d hd)]
    · intro d hd
      have hd_ne : d ≠ s.buckets bidx := by
        rintro rfl
        exact hds _ hd hh
      simp only [update_of_ne hd_ne, update_of_ne (hc_ne d hd)]

end

theorem advance (h : Bucket s bidx nodes) (hne : nodes ≠ []) : ∃ turned, (∀ d, d ∈ turned ↔ d ∈ nodes) ∧
      Bucket { s with
        buckets := update s.buckets bidx (s.nextFree (s.buckets bidx)) } bidx turned := by
  obtain ⟨rest, hr⟩ :=
    Circular.exists_rotated_cons (h.circular.links_of_mem (h.head_mem hne)).1
  refine ⟨_, fun d => hr.perm.mem_iff.symm, h.circular.rotate hr, hr.nodup_iff.mp h.nodup, by simp, ?_⟩
  simp [h.avail.mpr hne]

end Bucket

namespace Listed

variable {cfg : Config} {s : ZHeap} {listed : Finset Nat} {c : Nat}

section

variable (h : Listed cfg s listed)
include h

theorem of_bucket {next : ZHeap} {os : Finset Nat} (hs : SameChunks s next)
    (hbc : ∀ bidx < cfg.nbBuckets s.endChunk, ∃ nodes, Bucket next bidx nodes ∧
      ∀ d, d ∈ nodes ↔ d ∈ os ∧ cfg.bucketIdx s.endChunk (s.size d) = bidx)
    (hby : ∀ bidx, cfg.nbBuckets s.endChunk ≤ bidx →
      next.availBuckets bidx = s.availBuckets bidx) (ho : ∀ d ∈ os, d ∈ listed ∨
      d ≠ 0 ∧ cfg.minChunkSize s.endChunk ≤ s.size d ∧ s.size d ≤ s.endChunk) :
    Listed cfg next os where
  bucket := by simpa only [hs.endChunk, hs.size] using hbc
  beyond := by
    intro bidx hb
    rw [hs.endChunk] at hb
    rw [hby bidx hb]
    exact h.beyond bidx hb
  ne_zero := by
    intro d hd
    rcases ho d hd with hol | hn
    · exact h.ne_zero d hol
    · exact hn.1
  min_le := by
    intro d hd
    rw [hs.endChunk, hs.size]
    rcases ho d hd with hol | hn
    · exact h.min_le d hol
    · exact hn.2.1
  le_end := by
    intro d hd
    rw [hs.endChunk, hs.size]
    rcases ho d hd with hol | hn
    · exact h.le_end d hol
    · exact hn.2.2

theorem bucket_of_mem (hc : c ∈ listed) :
    ∃ nodes, Bucket s (cfg.bucketIdx s.endChunk (s.size c)) nodes ∧ c ∈ nodes ∧ ∀ d, d ∈ nodes ↔ d ∈ listed ∧
        cfg.bucketIdx s.endChunk (s.size d) = cfg.bucketIdx s.endChunk (s.size c) := by
  obtain ⟨nodes, hb, hn⟩ := h.bucket _ (cfg.bucketIdx_lt_nbBuckets (h.le_end c hc))
  exact ⟨nodes, hb, (hn c).mpr ⟨hc, rfl⟩, hn⟩

theorem freeListRemoveBidx (hc : c ∈ listed) :
    SameChunks s (s.freeListRemoveBidx cfg c (cfg.bucketIdx s.endChunk (s.size c))) ∧
      Listed cfg (s.freeListRemoveBidx cfg c (cfg.bucketIdx s.endChunk (s.size c)))
        (listed.erase c) := by
  obtain ⟨nodes, hb, hmem, hn⟩ := h.bucket_of_mem hc
  have hs := hb.freeListRemoveBidx_sameChunks cfg hmem
  refine ⟨hs, h.of_bucket hs ?_ ?_ ?_⟩
  · intro bidx hbd
    by_cases heq : bidx = cfg.bucketIdx s.endChunk (s.size c)
    · subst heq
      obtain ⟨rest, hr, hmem_rest⟩ := hb.freeListRemoveBidx cfg hmem
      refine ⟨rest, hr, fun d => ?_⟩
      rw [hmem_rest, hn, Finset.mem_erase]
      tauto
    · obtain ⟨os, hot, ho⟩ := h.bucket bidx hbd
      refine ⟨os, hb.freeListRemoveBidx_other cfg hmem hot heq ?_, fun d => ?_⟩
      · intro d hd hd'
        exact heq (((ho d).mp hd).2.symm.trans ((hn d).mp hd').2)
      · rw [ho, Finset.mem_erase]
        constructor
        · rintro ⟨hd, hi⟩
          refine ⟨⟨?_, hd⟩, hi⟩
          rintro rfl
          exact heq hi.symm
        · rintro ⟨⟨-, hd⟩, hi⟩
          exact ⟨hd, hi⟩
  · intro bidx hbd
    have hne : bidx ≠ cfg.bucketIdx s.endChunk (s.size c) := by
      have hlt := cfg.bucketIdx_lt_nbBuckets (h.le_end c hc)
      omega
    by_cases hnx : s.nextFree c = c
    · unfold ZHeap.freeListRemoveBidx
      rw [if_pos hnx]
      exact update_of_ne hne _ _
    · rw [hb.freeListRemoveBidx_eq cfg hmem hnx]
  · exact fun d hd => .inl (Finset.mem_of_mem_erase hd)

theorem freeListAddBidx (hc : c ∉ listed) (hne : c ≠ 0)
    (hm : cfg.minChunkSize s.endChunk ≤ s.size c) (hle : s.size c ≤ s.endChunk) :
    SameChunks s (s.freeListAddBidx cfg c (cfg.bucketIdx s.endChunk (s.size c))) ∧
      Listed cfg (s.freeListAddBidx cfg c (cfg.bucketIdx s.endChunk (s.size c)))
        (insert c listed) := by
  have hlt := cfg.bucketIdx_lt_nbBuckets hle
  obtain ⟨nodes, hb, hn⟩ := h.bucket _ hlt
  have hz : 0 ∉ nodes := fun hmem => h.ne_zero 0 ((hn 0).mp hmem).1 rfl
  have hc_nodes : c ∉ nodes := fun hmem => hc ((hn c).mp hmem).1
  have hs := hb.freeListAddBidx_sameChunks cfg hz c
  refine ⟨hs, h.of_bucket hs ?_ ?_ ?_⟩
  · intro bidx hbd
    by_cases heq : bidx = cfg.bucketIdx s.endChunk (s.size c)
    · subst heq
      refine ⟨nodes ++ [c], hb.freeListAddBidx cfg hz hc_nodes, fun d => ?_⟩
      rw [List.mem_append, hn, List.mem_singleton, Finset.mem_insert]
      constructor
      · rintro (⟨hd, hi⟩ | rfl)
        · exact ⟨.inr hd, hi⟩
        · exact ⟨.inl rfl, rfl⟩
      · rintro ⟨rfl | hd, hi⟩
        · exact .inr rfl
        · exact .inl ⟨hd, hi⟩
    · obtain ⟨others, hot, ho⟩ := h.bucket bidx hbd
      have hc_others : c ∉ others := fun hmem => hc ((ho c).mp hmem).1
      refine ⟨others, hb.freeListAddBidx_other cfg hz hot heq ?_ hc_others, fun d => ?_⟩
      · intro d hd hd'
        exact heq (((ho d).mp hd).2.symm.trans ((hn d).mp hd').2)
      · rw [ho, Finset.mem_insert]
        constructor
        · rintro ⟨hd, hi⟩
          exact ⟨.inr hd, hi⟩
        · rintro ⟨rfl | hd, hi⟩
          · exact absurd hi.symm heq
          · exact ⟨hd, hi⟩
  · intro bidx hbd
    have hne' : bidx ≠ cfg.bucketIdx s.endChunk (s.size c) := by omega
    cases nodes with
    | nil =>
      rw [hb.freeListAddBidx_eq_of_nil cfg c]
      exact update_of_ne hne' _ _
    | cons first rest => rw [hb.freeListAddBidx_eq cfg (by simp) hz c]
  · intro d hd
    rcases Finset.mem_insert.mp hd with rfl | hol
    · exact .inr ⟨hne, hm, hle⟩
    · exact .inl hol

theorem freeListRemove (hc : cfg.minChunkSize s.endChunk ≤ s.size c → c ∈ listed) :
    SameChunks s (s.freeListRemove cfg c) ∧ Listed cfg (s.freeListRemove cfg c) (listed.erase c) := by
  unfold ZHeap.freeListRemove ZHeap.undersizedChunk
  by_cases hm : s.size c < cfg.minChunkSize s.endChunk
  · have hn : c ∉ listed := fun hmem => absurd (h.min_le c hmem) (by omega)
    rw [if_pos (by simpa using hm), Finset.erase_eq_of_notMem hn]
    exact ⟨SameChunks.refl s, h⟩
  · rw [if_neg (by simpa using hm)]
    exact h.freeListRemoveBidx (hc (by omega))

theorem freeListAdd (hc : c ∉ listed) (hne : c ≠ 0) (hle : s.size c ≤ s.endChunk) {others : Finset Nat}
    (ho : ∀ d, d ∈ others ↔ d ∈ listed ∨ d = c ∧ cfg.minChunkSize s.endChunk ≤ s.size c) :
    SameChunks s (s.freeListAdd cfg c) ∧ Listed cfg (s.freeListAdd cfg c) others := by
  unfold ZHeap.freeListAdd ZHeap.undersizedChunk
  by_cases hm : s.size c < cfg.minChunkSize s.endChunk
  · have heq : others = listed := by
      ext d
      rw [ho]
      constructor
      · rintro (hd | ⟨-, hd⟩)
        · exact hd
        · omega
      · exact .inl
    rw [if_pos (by simpa using hm), heq]
    exact ⟨SameChunks.refl s, h⟩
  · have heq : others = insert c listed := by
      ext d
      rw [ho, Finset.mem_insert]
      constructor
      · rintro (hd | ⟨hd, -⟩)
        · exact .inr hd
        · exact .inl hd
      · rintro (hd | hd)
        · exact .inr ⟨hd, by omega⟩
        · exact .inl hd
    rw [if_neg (by simpa using hm), heq]
    exact h.freeListAddBidx hc hne (by omega) hle

end

end Listed

structure Sound (s : ZHeap) (c : Nat) : Prop where
  free : s.used c = false
  right : s.leftChunk (s.rightChunk c) = c
  left : s.rightChunk (s.leftChunk c) = c

theorem Sound.freeChunkCheck (h : Sound s c) (cfg : Config) : s.freeChunkCheck cfg c = s :=
  ZHeap.check_of (by simp [h.free, h.right, h.left])

theorem Sound.congr {next : ZHeap} (h : Sound s c) (hs : SameChunks s next) : Sound next c := by
  obtain ⟨hf, hr, hl⟩ := h
  unfold ZHeap.rightChunk ZHeap.leftChunk at hr hl
  constructor
  · rw [hs.used, hf]
  · unfold ZHeap.rightChunk ZHeap.leftChunk
    rw [hs.size, hs.leftSize, hr]
  · unfold ZHeap.rightChunk ZHeap.leftChunk
    rw [hs.size, hs.leftSize, hl]

-- The outcome of a search: a listed chunk that is large enough has been taken off
-- the lists, or the lists are the same.
def Takes (cfg : Config) (s : ZHeap) (listed : Finset Nat) (sz : Nat) (next : ZHeap) : Option Nat → Prop
  | none => SameChunks s next ∧ Listed cfg next listed
  | some c => c ∈ listed ∧ sz ≤ s.size c ∧ SameChunks s next ∧ Listed cfg next (listed.erase c)

theorem Takes.trans {cfg : Config} {mid next : ZHeap} {listed : Finset Nat} {sz : Nat}
    {found : Option Nat} (hs : SameChunks s mid) (h : Takes cfg mid listed sz next found) :
    Takes cfg s listed sz next found := by
  cases found with
  | none => exact ⟨hs.trans h.1, h.2⟩
  | some c =>
    obtain ⟨hc, hsz, hsm, hl⟩ := h
    exact ⟨hc, hs.size ▸ hsz, hs.trans hsm, hl⟩

namespace Listed

variable {cfg : Config} {s : ZHeap} {listed : Finset Nat} {c : Nat}

variable {bidx : Nat}

theorem head_mem (h : Listed cfg s listed) (hbd : bidx < cfg.nbBuckets s.endChunk) (hne : s.buckets bidx ≠ 0) :
    s.buckets bidx ∈ listed ∧ cfg.bucketIdx s.endChunk (s.size (s.buckets bidx)) = bidx := by
  obtain ⟨nodes, hb, hn⟩ := h.bucket bidx hbd
  have hnodes_ne : nodes ≠ [] := by
    rintro rfl
    exact hne hb.head
  exact (hn _).mp (hb.head_mem hnodes_ne)

theorem take (h : Listed cfg s listed) (hc : c ∈ listed) (hs : Sound s c) {sz : Nat}
    (hsz : sz ≤ s.size c) (hb : cfg.bucketIdx s.endChunk (s.size c) = bidx) :
    Takes cfg s listed sz ((s.freeChunkCheck cfg c).freeListRemoveBidx cfg c bidx) (some c) := by
  rw [hs.freeChunkCheck cfg, ← hb]
  obtain ⟨hsm, hl⟩ := h.freeListRemoveBidx hc
  exact ⟨hc, hsz, hsm, hl⟩

theorem advance (h : Listed cfg s listed) (hbd : bidx < cfg.nbBuckets s.endChunk) (hne : s.buckets bidx ≠ 0) :
    Listed cfg { s with
      buckets := update s.buckets bidx (s.nextFree (s.buckets bidx)) } listed ∧
      s.nextFree (s.buckets bidx) ≠ 0 := by
  obtain ⟨nodes, hb, hn⟩ := h.bucket bidx hbd
  have hnodes_ne : nodes ≠ [] := by
    rintro rfl
    exact hne hb.head
  obtain ⟨turned, ht, hbc⟩ := hb.advance hnodes_ne
  have hnx := (hb.circular.links_of_mem (hb.head_mem hnodes_ne)).1
  refine ⟨h.of_bucket ⟨rfl, rfl, rfl, rfl, rfl, rfl⟩ ?_ (fun _ _ => rfl) fun d hd => .inl hd,
    h.ne_zero _ ((hn _).mp hnx).1⟩
  intro o hoh
  by_cases heq : o = bidx
  · subst heq
    exact ⟨turned, hbc, fun d => (ht d).trans (hn d)⟩
  · obtain ⟨os, ho, hot⟩ := h.bucket o hoh
    exact ⟨os, ho.congr (update_of_ne heq _ _) rfl (fun _ _ => rfl) (fun _ _ => rfl), hot⟩

theorem allocLoop (h : Listed cfg s listed) (hs : ∀ d ∈ listed, Sound s d) (sz : Nat)
    {bi : Nat} (hbi : bi < cfg.nbBuckets s.endChunk) (hne : s.buckets bi ≠ 0) (first i : Nat) :
    Takes cfg s listed sz (ZHeap.allocLoop cfg sz bi first i s).1
      (ZHeap.allocLoop cfg sz bi first i s).2 := by
  induction i generalizing s with
  | zero => exact ⟨SameChunks.refl s, h⟩
  | succ i ih =>
    obtain ⟨hh, hi⟩ := h.head_mem hbi hne
    unfold ZHeap.allocLoop
    dsimp only
    by_cases hsz : s.size (s.buckets bi) ≥ sz
    · rw [if_pos hsz]
      exact h.take hh (hs _ hh) hsz hi
    · rw [if_neg hsz]
      obtain ⟨ha, hn⟩ := h.advance hbi hne
      have hsm : SameChunks s { s with
          buckets := update s.buckets bi (s.nextFree (s.buckets bi)) } :=
        ⟨rfl, rfl, rfl, rfl, rfl, rfl⟩
      split
      · refine Takes.trans hsm (ih ha (fun d hd => (hs d hd).congr hsm) hbi ?_)
        simpa using hn
      · exact ⟨hsm, ha⟩

theorem minBucket_some {bi mb : Nat} (h : s.minBucket bi = some mb) : bi < mb ∧ s.availBuckets mb = true := by
  have hf := List.find?_some h
  simpa using hf

theorem head_of_higher (h : Listed cfg s listed) {sz mb : Nat}
    (hm : s.minBucket (cfg.bucketIdx s.endChunk sz) = some mb) :
    s.buckets mb ∈ listed ∧ cfg.bucketIdx s.endChunk (s.size (s.buckets mb)) = mb ∧ sz ≤ s.size (s.buckets mb) := by
  obtain ⟨hlt, ha⟩ := minBucket_some hm
  have hbd : mb < cfg.nbBuckets s.endChunk := by
    by_contra hge
    rw [h.beyond mb (by omega)] at ha
    cases ha
  obtain ⟨nodes, hb, hn⟩ := h.bucket mb hbd
  obtain ⟨hh, hi⟩ := (hn _).mp (hb.head_mem (hb.avail.mp ha))
  refine ⟨hh, hi, ?_⟩
  by_contra hgt
  have hle := cfg.bucketIdx_mono s.endChunk (Nat.le_of_lt (Nat.not_le.mp hgt))
  omega

theorem allocChunk (h : Listed cfg s listed) (hsn : ∀ d ∈ listed, Sound s d) {sz : Nat} (hsz : sz ≤ s.endChunk) :
    Takes cfg s listed sz (s.allocChunk cfg sz).1
      (if (s.allocChunk cfg sz).2 = 0 then none else some (s.allocChunk cfg sz).2) := by
  have hbi := cfg.bucketIdx_lt_nbBuckets hsz
  obtain ⟨⟨mid, found⟩, heq⟩ : ∃ looped, (if s.buckets (cfg.bucketIdx s.endChunk sz) ≠ 0 then
      ZHeap.allocLoop cfg sz (cfg.bucketIdx s.endChunk sz)
        (s.buckets (cfg.bucketIdx s.endChunk sz))
        (if cfg.allocLoops = 0 then s.endChunk else cfg.allocLoops) s
      else (s, none)) = looped := ⟨_, rfl⟩
  have hlp : Takes cfg s listed sz mid found := by
    by_cases hne : s.buckets (cfg.bucketIdx s.endChunk sz) ≠ 0
    · have ht := h.allocLoop hsn sz hbi hne (s.buckets (cfg.bucketIdx s.endChunk sz))
        (if cfg.allocLoops = 0 then s.endChunk else cfg.allocLoops)
      rw [if_pos hne] at heq
      rwa [heq] at ht
    · rw [if_neg hne] at heq
      cases heq
      exact ⟨SameChunks.refl s, h⟩
  unfold ZHeap.allocChunk
  simp only [heq]
  cases found with
  | some c =>
    have hc := h.ne_zero c hlp.1
    simp only [hc, if_false]
    exact hlp
  | none =>
    obtain ⟨hs, hl⟩ := hlp
    rw [← hs.endChunk]
    cases hm : mid.minBucket (cfg.bucketIdx mid.endChunk sz) with
    | none =>
      exact ⟨hs, hl⟩
    | some mb =>
      obtain ⟨hh, hi, hsi⟩ := hl.head_of_higher hm
      have hne := hl.ne_zero _ hh
      simp only [hne, if_false]
      exact Takes.trans hs
        (hl.take hh ((hsn _ hh).congr hs) hsi hi)

end Listed

end Gale.Heap
