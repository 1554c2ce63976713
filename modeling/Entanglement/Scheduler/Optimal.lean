import Entanglement.Scheduler.Resources
import Mathlib.Data.List.Lex
import Mathlib.Data.Prod.Lex

/-!
# The choice of a worker is optimal

Among workers with distinct ids `choose` has one answer (`choose_eq_ok_iff`): the worker with the
greatest key, where the key of a worker is its score and then, the smaller the better, its id. The
answer depends on the workers as a set, so that neither their order nor the presence of a worker that
is not chosen matters (`choose_optimal`).
-/

namespace Entanglement.Scheduler

open Lib

/-! ## The greatest element of a list -/

section MaxBy

variable {α κ : Type} [LinearOrder κ] {cmp : α → α → Ordering} {key : α → κ} {xs : List α} {m : α}

/-- On the elements of the list the comparison is that of the keys. -/
def ComparesBy (cmp : α → α → Ordering) (key : α → κ) (xs : List α) : Prop :=
  ∀ a ∈ xs, ∀ b ∈ xs, cmp a b = .gt ↔ key b < key a

omit [LinearOrder κ] in
theorem exists_maxBy (cmp : α → α → Ordering) {x : α} (hx : x ∈ xs) : ∃ m, maxBy cmp xs = some m := by
  cases xs with
  | nil => cases hx
  | cons y ys => exact ⟨_, rfl⟩

/-- The best element so far only gets better. -/
theorem key_le_foldl (h : ComparesBy cmp key xs) {zs : List α} {best : α} (hbest : best ∈ xs)
    (hzs : zs ⊆ xs) : ∀ x ∈ best :: zs,
      key x ≤ key (zs.foldl (fun best y => if cmp best y = .gt then best else y) best) := by
  induction zs generalizing best with
  | nil =>
    intro x hx
    rw [List.mem_singleton.1 hx]
    exact le_rfl
  | cons z zs ih =>
    obtain ⟨hz, hrest⟩ := List.cons_subset.1 hzs
    have hcmp := h best hbest z hz
    intro x hx
    rw [List.foldl_cons]
    by_cases hgt : cmp best z = .gt
    · rw [if_pos hgt]
      rcases List.mem_cons.1 hx with rfl | hx
      · exact ih hbest hrest _ List.mem_cons_self
      rcases List.mem_cons.1 hx with rfl | hx
      · exact (hcmp.1 hgt).le.trans (ih hbest hrest _ List.mem_cons_self)
      · exact ih hbest hrest _ (List.mem_cons_of_mem _ hx)
    · rw [if_neg hgt]
      have hle : key best ≤ key z := not_lt.1 fun hlt => hgt (hcmp.2 hlt)
      rcases List.mem_cons.1 hx with rfl | hx
      · exact hle.trans (ih hz hrest _ List.mem_cons_self)
      · exact ih hz hrest _ hx

theorem maxBy_isGreatest (h : ComparesBy cmp key xs) (hmax : maxBy cmp xs = some m) :
    m ∈ xs ∧ ∀ x ∈ xs, key x ≤ key m := by
  refine ⟨maxBy_mem hmax, ?_⟩
  cases xs with
  | nil => cases hmax
  | cons y ys =>
    cases hmax
    exact key_le_foldl h List.mem_cons_self (List.subset_cons_self _ _)

/-- When the keys tell the elements apart, there is only one that can be found. -/
theorem maxBy_eq_some_iff (h : ComparesBy cmp key xs)
    (hinj : ∀ a ∈ xs, ∀ b ∈ xs, key a = key b → a = b) :
    maxBy cmp xs = some m ↔ m ∈ xs ∧ ∀ x ∈ xs, key x ≤ key m := by
  constructor
  · exact maxBy_isGreatest h
  · rintro ⟨hm, hle⟩
    obtain ⟨m', hm'⟩ := exists_maxBy cmp hm
    obtain ⟨hmem, hle'⟩ := maxBy_isGreatest h hm'
    rw [hm', hinj m' hmem m hm (le_antisymm (hle m' hmem) (hle' m hm))]

end MaxBy

/-! ## The order of the peers -/

/-- The bytes of an id as numbers; ids are ordered as these lists are. -/
def peerRank (p : PeerId) : List Nat := p.bytes.toList.map UInt8.toNat

theorem peerRank_injective : Function.Injective peerRank := by
  intro a b h
  have hbytes : a.bytes.toList = b.bytes.toList :=
    List.map_injective_iff.2 (fun _ _ => UInt8.toNat_inj.1) h
  cases a
  cases b
  exact congrArg PeerId.mk (Subtype.ext hbytes)

/-- One step of `comparePeer`. -/
def thenByte (o : Ordering) (p : UInt8 × UInt8) : Ordering := o.then (compare p.1.toNat p.2.toNat)

theorem foldl_thenByte (ps : List (UInt8 × UInt8)) (o : Ordering) :
    ps.foldl thenByte o = o.then (ps.foldl thenByte .eq) := by
  induction ps generalizing o with
  | nil => cases o <;> rfl
  | cons p ps ih =>
    rw [List.foldl_cons, List.foldl_cons, ih (thenByte o p), ih (thenByte .eq p)]
    cases o <;> rfl

theorem foldl_thenByte_eq_gt {as bs : List UInt8} (hlen : as.length = bs.length) :
    (as.zip bs).foldl thenByte .eq = .gt ↔ bs.map UInt8.toNat < as.map UInt8.toNat := by
  induction as generalizing bs with
  | nil =>
    cases bs with
    | nil => simp
    | cons b bs => cases hlen
  | cons a as ih =>
    cases bs with
    | nil => cases hlen
    | cons b bs =>
      have hrest := ih (Nat.succ.inj hlen)
      rw [List.zip_cons_cons, List.foldl_cons, foldl_thenByte, List.map_cons, List.map_cons,
        List.cons_lt_cons_iff, ← hrest, thenByte]
      rcases lt_trichotomy a.toNat b.toNat with hlt | heq | hgt
      · have hcmp : compare a.toNat b.toNat = .lt := compare_lt_iff_lt.2 hlt
        simp [hcmp, hlt.ne', hlt.le]
      · simp [heq]
      · have hcmp : compare a.toNat b.toNat = .gt := compare_gt_iff_gt.2 hgt
        simp [hcmp, hgt]

theorem comparePeer_eq_gt {a b : PeerId} : comparePeer a b = .gt ↔ peerRank b < peerRank a :=
  foldl_thenByte_eq_gt (by rw [a.bytes.toList_length, b.bytes.toList_length])

/-! ## The best worker -/

/-- The worker meets every hard requirement and has a finite score. -/
structure Eligible (score : WorkerInfo → ResourceSpec → F32) (spec : ResourceSpec) (w : WorkerInfo) :
    Prop where
  meets : Meets w spec
  finite : (score w spec).isFinite = true

/-- The worker is eligible, no eligible one has a higher score, and of those with the same score it
has the smallest id. -/
structure Best (score : WorkerInfo → ResourceSpec → F32) (workers : List WorkerInfo)
    (spec : ResourceSpec) (w : WorkerInfo) : Prop where
  mem : w ∈ workers
  eligible : Eligible score spec w
  highest : ∀ w' ∈ workers, Eligible score spec w' → (score w' spec).le (score w spec)
  smallest : ∀ w' ∈ workers, Eligible score spec w' → score w' spec = score w spec →
    peerRank w.peerId ≤ peerRank w'.peerId

theorem satisfies_iff {w : WorkerInfo} {spec : ResourceSpec} :
    satisfies w spec = true ↔ Meets w spec := by
  refine ⟨meets_of_satisfies, ?_⟩
  rintro ⟨hcpu, hmem, hgpu, hnpu⟩
  simp only [satisfies, Bool.and_eq_true]
  refine ⟨⟨⟨?_, decide_eq_true hmem⟩, ?_⟩, ?_⟩
  · rcases F32.le_iff_partialCmp.1 hcpu with h | h <;> rw [h]
  · cases hreq : spec.gpu with
    | none => rfl
    | some req =>
      obtain ⟨g, hg, hvram, hbackend⟩ := hgpu req hreq
      simp [hg, hvram, backendMatches, hbackend]
  · cases hreq : spec.npu with
    | none => rfl
    | some req =>
      obtain ⟨n, hn, hvendor⟩ := hnpu req hreq
      simp [hn, hvendor]

section Choose

variable {score : WorkerInfo → ResourceSpec → F32} {workers workers' : List WorkerInfo}
  {spec : ResourceSpec}

/-- The candidates that `choose` compares: those of a finite score. -/
def finalists (score : WorkerInfo → ResourceSpec → F32) (workers : List WorkerInfo)
    (spec : ResourceSpec) : List (F32 × WorkerInfo) :=
  ((workers.filter fun w => satisfies w spec).map fun w => (score w spec, w)).filter
    fun p => p.1.isFinite

theorem mem_finalists {s : F32} {w : WorkerInfo} :
    (s, w) ∈ finalists score workers spec ↔
      w ∈ workers ∧ Eligible score spec w ∧ s = score w spec := by
  simp only [finalists, List.mem_filter, List.mem_map, satisfies_iff]
  constructor
  · rintro ⟨⟨w, ⟨hmem, hmeets⟩, heq⟩, hfin⟩
    cases heq
    exact ⟨hmem, ⟨hmeets, hfin⟩, rfl⟩
  · rintro ⟨hmem, ⟨hmeets, hfin⟩, rfl⟩
    exact ⟨⟨w, ⟨hmem, hmeets⟩, rfl⟩, hfin⟩

/-- What `choose` maximises: the score, and then the smaller id. -/
def rank (p : F32 × WorkerInfo) : ℚ ×ₗ (List Nat)ᵒᵈ :=
  toLex (p.1.value, OrderDual.toDual (peerRank p.2.peerId))

theorem comparesBy_rank : ComparesBy compareScored rank (finalists score workers spec) := by
  rintro ⟨s, w⟩ ha ⟨s', w'⟩ hb
  obtain ⟨q, rfl⟩ := F32.exists_fin (List.mem_filter.1 ha).2
  obtain ⟨q', rfl⟩ := F32.exists_fin (List.mem_filter.1 hb).2
  have hcmp : compareScored (.fin q, w) (.fin q', w') = .gt ↔
      q' < q ∨ q = q' ∧ peerRank w.peerId < peerRank w'.peerId := by
    rw [← comparePeer_eq_gt, compareScored]
    rcases lt_trichotomy q q' with hlt | rfl | hgt
    · simp [F32.totalCmp, compare_lt_iff_lt.2 hlt, hlt.ne, hlt.le]
    · simp [F32.totalCmp]
    · simp [F32.totalCmp, compare_gt_iff_gt.2 hgt, hgt]
  rw [hcmp, rank, rank, Prod.Lex.toLex_lt_toLex]
  simp only [F32.value, OrderDual.toDual_lt_toDual, eq_comm]

/-- Workers with distinct ids have distinct ranks. -/
theorem rank_inj (hdistinct : (workers.map WorkerInfo.peerId).Nodup) :
    ∀ a ∈ finalists score workers spec, ∀ b ∈ finalists score workers spec, rank a = rank b → a = b := by
  rintro ⟨s, w⟩ ha ⟨s', w'⟩ hb h
  obtain ⟨hw, -, rfl⟩ := mem_finalists.1 ha
  obtain ⟨hw', -, rfl⟩ := mem_finalists.1 hb
  have hid : w.peerId = w'.peerId :=
    peerRank_injective (OrderDual.toDual_inj.1 (Prod.ext_iff.1 (toLex_inj.1 h)).2)
  rw [List.inj_on_of_nodup_map hdistinct hw hw' hid]

theorem rank_le_iff {w w' : WorkerInfo} (hw : (score w spec).isFinite = true)
    (hw' : (score w' spec).isFinite = true) :
    rank (score w' spec, w') ≤ rank (score w spec, w) ↔
      (score w' spec).le (score w spec) ∧
        (score w' spec = score w spec → peerRank w.peerId ≤ peerRank w'.peerId) := by
  obtain ⟨q, hq⟩ := F32.exists_fin hw
  obtain ⟨q', hq'⟩ := F32.exists_fin hw'
  rw [hq, hq', rank, rank, Prod.Lex.toLex_le_toLex]
  simp only [F32.value, OrderDual.toDual_le_toDual, F32.le, F32.fin.injEq]
  constructor
  · rintro (hlt | ⟨rfl, hid⟩)
    · exact ⟨hlt.le, fun heq => absurd heq hlt.ne⟩
    · exact ⟨le_rfl, fun _ => hid⟩
  · rintro ⟨hle, hid⟩
    rcases hle.lt_or_eq with hlt | heq
    · exact .inl hlt
    · exact .inr ⟨heq, hid heq⟩

theorem choose_eq_ok {c : PlacementChoice} :
    choose score workers spec = .ok c ↔
      ∃ p, maxBy compareScored (finalists score workers spec) = some p ∧
        c = ⟨p.2.peerId, p.1, .fit p.2⟩ := by
  unfold choose
  by_cases hworkers : workers = []
  · subst hworkers
    simp [finalists, maxBy]
  rw [if_neg hworkers]
  by_cases hcandidates : (workers.filter fun w => satisfies w spec) = []
  · simp [finalists, maxBy, hcandidates]
  · simp only [if_neg hcandidates]
    cases hmax : maxBy compareScored (finalists score workers spec) with
    | none =>
      rw [finalists] at hmax
      simp [hmax]
    | some p =>
      rw [finalists] at hmax
      simp [hmax, eq_comm]

/-- Of workers with distinct ids `choose` chooses the best one. -/
theorem choose_eq_ok_iff (hdistinct : (workers.map WorkerInfo.peerId).Nodup) {c : PlacementChoice} :
    choose score workers spec = .ok c ↔
      ∃ w, Best score workers spec w ∧ c = ⟨w.peerId, score w spec, .fit w⟩ := by
  rw [choose_eq_ok]
  constructor
  · rintro ⟨⟨s, w⟩, hmax, rfl⟩
    obtain ⟨hmem, hle⟩ := (maxBy_eq_some_iff comparesBy_rank (rank_inj hdistinct)).1 hmax
    obtain ⟨hw, helig, rfl⟩ := mem_finalists.1 hmem
    have hranked : ∀ w' ∈ workers, Eligible score spec w' → _ := fun w' hw' helig' =>
      (rank_le_iff helig.finite helig'.finite).1 (hle _ (mem_finalists.2 ⟨hw', helig', rfl⟩))
    exact ⟨w, ⟨hw, helig, fun w' hw' h => (hranked w' hw' h).1, fun w' hw' h => (hranked w' hw' h).2⟩,
      rfl⟩
  · rintro ⟨w, hbest, rfl⟩
    refine ⟨(score w spec, w), ?_, rfl⟩
    refine (maxBy_eq_some_iff comparesBy_rank (rank_inj hdistinct)).2
      ⟨mem_finalists.2 ⟨hbest.mem, hbest.eligible, rfl⟩, ?_⟩
    rintro ⟨s', w'⟩ hmem
    obtain ⟨hw', helig', rfl⟩ := mem_finalists.1 hmem
    exact (rank_le_iff hbest.eligible.finite helig'.finite).2
      ⟨hbest.highest w' hw' helig', hbest.smallest w' hw' helig'⟩

theorem exists_best_iff (hdistinct : (workers.map WorkerInfo.peerId).Nodup) :
    (∃ c, choose score workers spec = .ok c) ↔ ∃ w ∈ workers, Eligible score spec w := by
  constructor
  · rintro ⟨c, hc⟩
    obtain ⟨w, hbest, -⟩ := (choose_eq_ok_iff hdistinct).1 hc
    exact ⟨w, hbest.mem, hbest.eligible⟩
  · rintro ⟨w, hw, helig⟩
    have hmem : (score w spec, w) ∈ finalists score workers spec := mem_finalists.2 ⟨hw, helig, rfl⟩
    obtain ⟨p, hp⟩ := exists_maxBy compareScored hmem
    exact ⟨_, choose_eq_ok.2 ⟨p, hp, rfl⟩⟩

/-- The order of the workers does not matter, to an error neither. -/
theorem choose_perm (hdistinct : (workers.map WorkerInfo.peerId).Nodup)
    (hperm : workers'.Perm workers) :
    choose score workers' spec = choose score workers spec := by
  have hfilter := hperm.filter fun w => satisfies w spec
  have hfinalists : (finalists score workers' spec).Perm (finalists score workers spec) :=
    (hfilter.map _).filter _
  have hmax : maxBy compareScored (finalists score workers' spec) =
      maxBy compareScored (finalists score workers spec) := by
    have hdistinct' : (workers'.map WorkerInfo.peerId).Nodup := (hperm.map _).nodup_iff.2 hdistinct
    refine Option.ext fun p => ?_
    rw [maxBy_eq_some_iff comparesBy_rank (rank_inj hdistinct'),
      maxBy_eq_some_iff comparesBy_rank (rank_inj hdistinct)]
    simp only [hfinalists.mem_iff]
  have hempty : workers' = [] ↔ workers = [] :=
    ⟨fun h => List.perm_nil.1 (h ▸ hperm).symm, fun h => List.perm_nil.1 (h ▸ hperm)⟩
  have hnone : (workers'.filter fun w => satisfies w spec) = [] ↔
      (workers.filter fun w => satisfies w spec) = [] :=
    ⟨fun h => List.perm_nil.1 (h ▸ hfilter).symm, fun h => List.perm_nil.1 (h ▸ hfilter)⟩
  rw [finalists, finalists] at hmax
  simp only [choose, hempty, hnone, hmax]

/-- A best worker stays the best when others leave. -/
theorem Best.subset {w : WorkerInfo} (h : Best score workers spec w) (hsub : workers' ⊆ workers)
    (hw : w ∈ workers') : Best score workers' spec w where
  mem := hw
  eligible := h.eligible
  highest w' hw' := h.highest w' (hsub hw')
  smallest w' hw' := h.smallest w' (hsub hw')

end Choose

/-- **Placement is optimal** and does not depend on the order of the workers: of workers with distinct
ids it finds one if there is an eligible one, it finds the best, it finds the same in every order, and
the same when a worker leaves that was not chosen. -/
theorem choose_optimal (score : WorkerInfo → ResourceSpec → F32) (workers : List WorkerInfo)
    (spec : ResourceSpec) (hdistinct : (workers.map WorkerInfo.peerId).Nodup) :
    ((∃ c, choose score workers spec = .ok c) ↔ ∃ w ∈ workers, Eligible score spec w) ∧
      (∀ c, choose score workers spec = .ok c →
        ∃ w, Best score workers spec w ∧ c = ⟨w.peerId, score w spec, .fit w⟩) ∧
      (∀ workers', workers'.Perm workers →
        choose score workers' spec = choose score workers spec) ∧
      ∀ c w, choose score workers spec = .ok c → w.peerId ≠ c.peerId →
        choose score (workers.erase w) spec = .ok c := by
  refine ⟨exists_best_iff hdistinct, fun c => (choose_eq_ok_iff hdistinct).1,
    fun workers' => choose_perm hdistinct, ?_⟩
  intro c w hc hne
  obtain ⟨chosen, hbest, rfl⟩ := (choose_eq_ok_iff hdistinct).1 hc
  have hdistinct' : ((workers.erase w).map WorkerInfo.peerId).Nodup :=
    hdistinct.sublist (List.erase_sublist.map _)
  have hchosen : chosen ∈ workers.erase w :=
    (List.mem_erase_of_ne fun heq => hne (congrArg WorkerInfo.peerId heq.symm)).2 hbest.mem
  exact (choose_eq_ok_iff hdistinct').2
    ⟨chosen, hbest.subset List.erase_subset hchosen, rfl⟩

/-- A worker for concrete runs, with the id of a key. -/
def idleWorker (b : UInt8) : WorkerInfo where
  peerId := PeerId.fromPublicKeyBytes sampleHash (sampleKey b)
  displayName := "node"
  cpuCores := .fin 4
  memoryBytes := 1024
  gpu := none
  npu := none
  networkBandwidthBps := 1000
  rttMs := 1
  load := .fin 0
  cost := .fin 1

/-- Of two workers with the same score, the one with the smaller id, in either order. -/
theorem choose_optimal_tie :
    choose (fun _ _ => .fin 1) [idleWorker 1, idleWorker 2] {} =
        .ok ⟨(idleWorker 1).peerId, .fin 1, .fit (idleWorker 1)⟩ ∧
      choose (fun _ _ => .fin 1) [idleWorker 2, idleWorker 1] {} =
        .ok ⟨(idleWorker 1).peerId, .fin 1, .fit (idleWorker 1)⟩ := by
  have hdistinct : ([idleWorker 1, idleWorker 2].map WorkerInfo.peerId).Nodup := by decide
  have hchosen : choose (fun _ _ => .fin 1) [idleWorker 1, idleWorker 2] {} =
      .ok ⟨(idleWorker 1).peerId, .fin 1, .fit (idleWorker 1)⟩ := rfl
  obtain ⟨-, -, hperm, -⟩ := choose_optimal (fun _ _ => .fin 1) _ {} hdistinct
  exact ⟨hchosen, (hperm _ (List.Perm.swap _ _ _)).trans hchosen⟩

end Entanglement.Scheduler
