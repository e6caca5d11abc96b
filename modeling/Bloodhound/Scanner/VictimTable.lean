import Bloodhound.Scanner.GpuEngine
import Mathlib.Data.Nat.Log

/-!
# The lookup table in machine integers

`next_pow2`, `host_victim_hash`, `build_victim_lut` and `victim_lut_find` of `gpu_pipeline.cu` with the integers
that they compute with: counts, sizes and results are signed and have 32 bits, hashes and indices of victims are
unsigned. The host fills the table with its own copy of the hash.

The table of `GpuEngine.lean` is this one without the limits of the integers (`build_eq`).
-/

namespace Bloodhound.Scanner.VictimTable

/-- A signed integer of 32 bits. -/
def wrap (n : Int) : Int := Int.bmod n (2 ^ 32)

/-- The loop of `next_pow2` from some `p`. It does not end for more than 2³⁰, where `p` becomes zero. -/
def nextPow2From : Nat → Int → Int → Option Int
  | 0, _, _ => none
  | fuel + 1, p, v => if p < v then nextPow2From fuel (wrap (p * 2)) v else some p

def nextPow2 (fuel : Nat) (v : Int) : Option Int := nextPow2From fuel 1 v

def hostVictimHash (family : UInt8) (h20 : Bytes) : UInt32 :=
  h20.foldl (fun v b => (v ^^^ b.toUInt32) * 16777619) (2166136261 ^^^ family.toUInt32)

/-- The slots that are tried for a hash. -/
def probes (lutSize : Int) (hash : UInt32) : List Nat :=
  (List.range kMaxLutProbes).map fun probe =>
    ((hash + UInt32.ofNat probe) &&& UInt32.ofNat (lutSize - 1).toNat).toNat

structure Lut where
  slots : List (Option CudaVictimKey)
  lutSize : Int

def build (fuel : Nat) (victims : List CudaVictimKey) : Option Lut :=
  (nextPow2 fuel (wrap (victims.length * 2))).bind fun p =>
    let lutSize := max 256 p
    (ProbeTable.build (fun key => probes lutSize (hostVictimHash key.1 key.2)) CudaVictimKey.key lutSize.toNat
      victims).map fun slots => ⟨slots, lutSize⟩

def find (lut : Lut) (family : UInt8) (hash20 : Bytes) : Int :=
  match ProbeTable.find CudaVictimKey.key lut.slots (family, hash20)
    (probes lut.lutSize (victimHashKey family hash20)) with
  | some e => wrap e.victimIndex
  | none => -1

/-! ## Slots -/

theorem hostVictimHash_eq (family : UInt8) (h20 : Bytes) : hostVictimHash family h20 = victimHashKey family h20 := rfl

theorem probes_lt {lutSize : Int} (h : 0 < lutSize) (hash : UInt32) :
    ∀ s ∈ probes lutSize hash, s < lutSize.toNat := by
  intro s hs
  obtain ⟨probe, -, rfl⟩ := List.mem_map.mp hs
  rw [UInt32.toNat_and]
  calc _ ≤ (UInt32.ofNat (lutSize - 1).toNat).toNat := Nat.and_le_right
    _ ≤ (lutSize - 1).toNat := Nat.mod_le _ _
    _ < lutSize.toNat := by omega

theorem build_holds {fuel : Nat} {victims : List CudaVictimKey} {lut : Lut} (h : build fuel victims = some lut) :
    0 < lut.lutSize ∧ lut.slots.length = lut.lutSize.toNat ∧
      ProbeTable.Holds (fun key => probes lut.lutSize (victimHashKey key.1 key.2)) CudaVictimKey.key victims
        lut.slots := by
  obtain ⟨p, -, hRest⟩ := Option.bind_eq_some_iff.mp h
  obtain ⟨slots, hBuild, rfl⟩ := Option.map_eq_some_iff.mp hRest
  have hPos : 0 < max 256 p := lt_max_of_lt_left (by decide)
  obtain ⟨hHolds, hLength⟩ := ProbeTable.holds_build (fun key => probes_lt hPos _) hBuild
  exact ⟨hPos, hLength, hHolds⟩

theorem wrap_eq {n : Int} (hLow : -2 ^ 31 ≤ n) (hHigh : n < 2 ^ 31) : wrap n = n :=
  Int.bmod_eq_of_le (by omega) (by omega)

/-! ## The search -/

theorem find_table (victims : List CudaVictimKey) {fuel : Nat} {lut : Lut} (h : build fuel victims = some lut)
    (family : UInt8) (hash20 : Bytes) :
    ((∃ v ∈ victims, v.key = (family, hash20)) →
      ∃ v ∈ victims, v.key = (family, hash20) ∧ find lut family hash20 = wrap v.victimIndex ∧
        (v.victimIndex < 2 ^ 31 → find lut family hash20 = v.victimIndex)) ∧
    ((¬ ∃ v ∈ victims, v.key = (family, hash20)) → find lut family hash20 = -1) ∧
    ∀ s ∈ probes lut.lutSize (victimHashKey family hash20), s < lut.slots.length := by
  obtain ⟨hPos, hLength, hHolds⟩ := build_holds h
  have hSome := hHolds.find_isSome_iff (k := (family, hash20))
  refine ⟨fun hListed => ?_, fun hNone => ?_, hLength ▸ probes_lt hPos _⟩
  · obtain ⟨e, he⟩ := Option.isSome_iff_exists.mp (hSome.mpr hListed)
    obtain ⟨hMem, hKey⟩ := hHolds.find_mem he
    have hFind : find lut family hash20 = wrap e.victimIndex := by
      unfold find
      rw [he]
    exact ⟨e, hMem, hKey, hFind, fun hLess => hFind.trans (wrap_eq (by omega) (by omega))⟩
  · have hMiss : ProbeTable.find CudaVictimKey.key lut.slots (family, hash20)
        (probes lut.lutSize (victimHashKey family hash20)) = none := by
      rw [← Option.not_isSome_iff_eq_none, hSome]
      exact hNone
    unfold find
    rw [hMiss]

/-- A victim with the largest index. -/
def lastIndex : CudaVictimKey := ⟨List.replicate 20 0, 4294967295, 0⟩

theorem find_lastIndex : ∃ lut, build 9 [lastIndex] = some lut ∧ find lut 0 (List.replicate 20 0) = -1 := by
  decide

/-- A victim that is found, in a table of one. -/
theorem find_table_one : ∃ lut, build 9 [⟨List.replicate 20 0, 7, 0⟩] = some lut ∧
    find lut 0 (List.replicate 20 0) = 7 := by
  have hBuilt : (build 9 [⟨List.replicate 20 0, 7, 0⟩]).isSome = true := by decide
  obtain ⟨lut, h⟩ := Option.isSome_iff_exists.mp hBuilt
  obtain ⟨v, hv, -, -, hFind⟩ := (find_table _ h 0 (List.replicate 20 0)).1 ⟨_, List.mem_singleton_self _, rfl⟩
  rw [List.mem_singleton.mp hv] at hFind
  exact ⟨lut, h, hFind (by decide)⟩

/-! ## The table without limits -/

theorem nextPow2_clog (v : Nat) : Scanner.nextPow2 v = 2 ^ Nat.clog 2 v := by
  have hLoop : ∀ n, (List.range n).foldl (fun p _ => if p < v then 2 * p else p) 1 = 2 ^ min n (Nat.clog 2 v) := by
    intro n
    induction n with
    | zero => rw [List.range_zero, List.foldl_nil, Nat.zero_min, Nat.pow_zero]
    | succ n ih =>
      rw [List.range_succ, List.foldl_append, ih, List.foldl_cons, List.foldl_nil]
      rcases Nat.lt_or_ge n (Nat.clog 2 v) with hLess | hMore
      · rw [Nat.min_eq_left (Nat.le_of_lt hLess), Nat.min_eq_left hLess,
          if_pos (Nat.pow_lt_of_lt_clog hLess), Nat.pow_succ, Nat.mul_comm]
      · rw [Nat.min_eq_right hMore, Nat.min_eq_right (Nat.le_succ_of_le hMore),
          if_neg (Nat.not_lt.mpr (Nat.le_pow_clog (by decide) v))]
  have hLe : Nat.clog 2 v ≤ v := Nat.clog_le_of_le_pow (Nat.le_of_lt Nat.lt_two_pow_self)
  exact (hLoop v).trans (by rw [Nat.min_eq_right hLe])

theorem nextPow2From_clog {v : Nat} (hv : v ≤ 2 ^ 30) {fuel k : Nat} (hk : k ≤ Nat.clog 2 v)
    (hFuel : Nat.clog 2 v < fuel + k) : nextPow2From fuel (2 ^ k) v = some (2 ^ Nat.clog 2 v) := by
  have hMax : Nat.clog 2 v ≤ 30 := Nat.clog_le_of_le_pow hv
  induction fuel generalizing k with
  | zero => omega
  | succ fuel ih =>
    rw [nextPow2From]
    rcases Nat.lt_or_ge k (Nat.clog 2 v) with hLess | hMore
    · have hPow : 2 ^ k < v := Nat.pow_lt_of_lt_clog hLess
      have hNext : wrap (2 ^ k * 2) = 2 ^ (k + 1) := by
        have hBound : (2 : Int) ^ k < 2 ^ 30 := by exact_mod_cast hPow.trans_le hv
        have hPos : (0 : Int) < 2 ^ k := by positivity
        rw [wrap_eq (by omega) (by omega), pow_succ]
      rw [if_pos (by exact_mod_cast hPow), hNext]
      exact ih hLess (by omega)
    · have hSame : k = Nat.clog 2 v := Nat.le_antisymm hk hMore
      have hNot : ¬ 2 ^ Nat.clog 2 v < v := Nat.not_lt.mpr (Nat.le_pow_clog (by decide) v)
      rw [hSame, if_neg (by exact_mod_cast hNot)]

theorem probes_eq (lutSize : Nat) (key : UInt8 × Bytes) :
    probes lutSize (hostVictimHash key.1 key.2) = lutProbes lutSize key := by
  have hMask : ((lutSize : Int) - 1).toNat = lutSize - 1 := by omega
  unfold probes lutProbes
  rw [hMask, hostVictimHash_eq]

/-- As long as twice the count fits, the loop ends and the tables are the same. -/
theorem build_eq {victims : List CudaVictimKey} (h : victims.length ≤ 2 ^ 29) :
    build 31 victims = (buildVictimLut victims).map fun lut => ⟨lut.slots, lut.lutSize⟩ := by
  have hCount : wrap ((victims.length : Int) * 2) = ((victims.length * 2 : Nat) : Int) := by
    rw [wrap_eq (by omega) (by omega)]
    push_cast
    rfl
  have hMax : Nat.clog 2 (victims.length * 2) ≤ 30 := Nat.clog_le_of_le_pow (by omega)
  have hPow : nextPow2 31 (wrap ((victims.length : Int) * 2)) =
      some (2 ^ Nat.clog 2 (victims.length * 2)) := by
    have hLoop := @nextPow2From_clog (victims.length * 2) (by omega) 31 0 (Nat.zero_le _) (by omega)
    rw [hCount, nextPow2, ← hLoop, pow_zero]
  have hSize : max 256 ((2 : Int) ^ Nat.clog 2 (victims.length * 2)) =
      (max 256 (Scanner.nextPow2 (victims.length * 2)) : Nat) := by
    rw [nextPow2_clog]
    push_cast
    rfl
  unfold build buildVictimLut
  dsimp only
  rw [hPow, Option.bind_some, hSize, Int.toNat_natCast, Option.map_map]
  simp only [probes_eq]
  rfl

theorem find_eq (lut : VictimLut) (family : UInt8) (hash20 : Bytes) :
    find ⟨lut.slots, lut.lutSize⟩ family hash20 =
      ((victimLutFind lut family hash20).map fun i : Nat => wrap i).getD (-1) := by
  have hProbes := probes_eq lut.lutSize (family, hash20)
  rw [hostVictimHash_eq] at hProbes
  unfold find victimLutFind
  dsimp only at hProbes ⊢
  rw [hProbes]
  split
  · next e he => rw [he, Option.map_some, Option.map_some, Option.getD_some]
  · next he => rw [he, Option.map_none, Option.map_none, Option.getD_none]

end Bloodhound.Scanner.VictimTable
