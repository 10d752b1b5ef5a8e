import StackBench.Phttpd.Store

/-!
# The write-ahead log of phttpd

`copy_and_log` without a tree: a record is a word with the length of the body
and then the body. No sum of sizes of a mapped file leaves 64 bits.
-/

namespace StackBench.Phttpd

/-- The lowest bytes of a number, in the order of memory. -/
def lowBytes : ℕ → ℕ → List UInt8
  | 0, _ => []
  | n + 1, v => UInt8.ofNat v :: lowBytes n (v / 256)

structure WalRecord where
  pos : ℕ
  body : List UInt8
deriving DecidableEq

/-- The mapping, the log position, all records, and those since the position has wrapped. -/
structure Wal where
  paddr : ℕ → UInt8
  cur : ℕ
  written : List WalRecord
  kept : List WalRecord

namespace Wal

section

variable (dbsiz pgsiz : ℕ) (pm : Bool)

def aligned (len : ℕ) : ℕ :=
  let align := if pm then 0 else pgsiz
  if align > 0 then getAligned len align else len

/-- How far a record moves the log position. -/
def advance (len : ℕ) : ℕ :=
  aligned pgsiz pm len + if (if pm then 0 else pgsiz) = 0 then 8 else 0

/-- `copy_and_log` without a tree; `mlen` is 8. -/
def copyAndLog (w : Wal) (buf : List UInt8) : Wal :=
  let wraps : Bool := w.cur + aligned pgsiz pm buf.length + 8 > dbsiz
  let cur := if wraps then 0 else w.cur
  { paddr := storeBytes (storeBytes w.paddr (cur + 8) buf) cur (lowBytes 8 buf.length)
    cur := cur + advance pgsiz pm buf.length
    written := ⟨cur, buf⟩ :: w.written
    kept := ⟨cur, buf⟩ :: if wraps then [] else w.kept }

end

/-- Reading at the position of the record gives its length and its body. -/
def Holds (mem : ℕ → UInt8) (r : WalRecord) : Prop :=
  word mem r.pos = r.body.length ∧ bytesAt mem (r.pos + 8) r.body.length = r.body

variable {dbsiz pgsiz : ℕ} {pm : Bool} {pad : Prop} {w : Wal} {buf : List UInt8}

/-- The log between two calls; `pad` tells whether every record moves the position behind it. -/
structure Inv (dbsiz : ℕ) (pad : Prop) (w : Wal) : Prop where
  inside : ∀ r ∈ w.written, r.pos + (8 + r.body.length) ≤ dbsiz
  below : pad → ∀ r ∈ w.kept, r.pos + (8 + r.body.length) ≤ w.cur
  holds : pad → ∀ r ∈ w.kept, Holds w.paddr r

theorem foldr_lowBytes {n v : ℕ} (h : v < 256 ^ n) :
    (lowBytes n v).foldr (fun b w => b.toNat + 256 * w) 0 = v := by
  induction n generalizing v with
  | zero =>
    rw [pow_zero, Nat.lt_one_iff] at h
    exact h.symm
  | succ n ih =>
    have hlt : v / 256 < 256 ^ n := Nat.div_lt_of_lt_mul (by rwa [pow_succ'] at h)
    rw [lowBytes, List.foldr_cons, ih hlt, UInt8.toNat_ofNat']
    omega

theorem le_aligned (pgsiz : ℕ) (pm : Bool) (len : ℕ) : len ≤ aligned pgsiz pm len := by
  unfold aligned getAligned
  generalize (if pm then 0 else pgsiz) = align
  have hd : len &&& (align - 1) ≤ align - 1 := Nat.and_le_right
  dsimp only
  split
  · split <;> omega
  · exact le_rfl

theorem Inv.record {cur adv : ℕ} {old : List WalRecord} (h : w.Inv dbsiz pad)
    (hlen : buf.length < 2 ^ 64) (hin : cur + (8 + buf.length) ≤ dbsiz)
    (hadv : pad → 8 + buf.length ≤ adv) (hold : ∀ r ∈ old, r ∈ w.kept)
    (hbelow : pad → ∀ r ∈ old, r.pos + (8 + r.body.length) ≤ cur) :
    Inv dbsiz pad ⟨storeBytes (storeBytes w.paddr (cur + 8) buf) cur (lowBytes 8 buf.length),
      cur + adv, ⟨cur, buf⟩ :: w.written, ⟨cur, buf⟩ :: old⟩ where
  inside := List.forall_mem_cons.mpr ⟨hin, h.inside⟩
  below hp := List.forall_mem_cons.mpr ⟨Nat.add_le_add_left (hadv hp) cur, fun r hr =>
    (hbelow hp r hr).trans (Nat.le_add_right _ _)⟩
  holds hp := by
    refine List.forall_mem_cons.mpr ⟨⟨?_, ?_⟩, fun r hr => ?_⟩
    · have hword : ∀ mem, bytesAt (storeBytes mem cur (lowBytes 8 buf.length)) cur 8 = _ :=
        fun _ => bytesAt_storeBytes_self
      exact (congrArg _ (hword _)).trans (foldr_lowBytes hlen)
    · exact (bytesAt_storeBytes_other (.inr le_rfl)).trans bytesAt_storeBytes_self
    · -- the new record starts behind the records that are kept
      have hend := hbelow hp r hr
      unfold Holds word
      rw [bytesAt_storeBytes_other (.inl (by omega)), bytesAt_storeBytes_other (.inl (by omega)),
        bytesAt_storeBytes_other (.inl (by omega)), bytesAt_storeBytes_other (.inl (by omega))]
      exact h.holds hp r (hold r hr)

theorem Inv.copyAndLog (h : w.Inv dbsiz pad) (hsize : dbsiz < 2 ^ 64)
    (hfits : 8 + buf.length ≤ dbsiz) (hpad : pad → 8 + buf.length ≤ advance pgsiz pm buf.length) :
    (w.copyAndLog dbsiz pgsiz pm buf).Inv dbsiz pad := by
  have hle := le_aligned pgsiz pm buf.length
  have hlen : buf.length < 2 ^ 64 := by omega
  simp only [Wal.copyAndLog, decide_eq_true_eq]
  split
  · exact h.record hlen (by omega) hpad nofun fun _ => nofun
  · exact h.record hlen (by omega) hpad (fun _ hr => hr) h.below

/-- Records lie in the database, and are kept until the position wraps if each moves it far
enough. -/
theorem log_records_kept (dbsiz pgsiz : ℕ) (pm : Bool) (file : ℕ → UInt8)
    (pos : ℕ) (bodies : List (List UInt8)) (hsize : dbsiz < 2 ^ 64)
    (hfits : ∀ b ∈ bodies, 8 + b.length ≤ dbsiz) :
    let w := bodies.foldl (Wal.copyAndLog dbsiz pgsiz pm) ⟨file, pos, [], []⟩
    (∀ r ∈ w.written, r.pos + (8 + r.body.length) ≤ dbsiz) ∧
      ((∀ b ∈ bodies, 8 + b.length ≤ advance pgsiz pm b.length) →
        ∀ r ∈ w.kept, Holds w.paddr r) := by
  have h : (bodies.foldl (Wal.copyAndLog dbsiz pgsiz pm) ⟨file, pos, [], []⟩).Inv dbsiz
      (∀ b ∈ bodies, 8 + b.length ≤ advance pgsiz pm b.length) :=
    List.foldlRecOn bodies _ ⟨nofun, fun _ => nofun, fun _ => nofun⟩ fun w h b hb =>
      h.copyAndLog hsize (hfits b hb) fun hp => hp b hb
  exact ⟨h.inside, h.holds⟩

theorem log_records_kept_two : Holds
    ([[1], [2, 3]].foldl (Wal.copyAndLog 64 8 true) ⟨fun _ => 0, 0, [], []⟩).paddr ⟨0, [1]⟩ :=
  (log_records_kept 64 8 true (fun _ => 0) 0 [[1], [2, 3]] (by decide) (by simp)).2 (by decide) _
    (by decide)

/-- The second length word replaces the body of the first record. -/
theorem log_record_overwritten :
    (([[1, 2, 3, 4, 5, 6, 7, 8], [9]].foldl (Wal.copyAndLog 64 8 false)
        ⟨fun _ => 0, 0, [], []⟩).kept = [⟨8, [9]⟩, ⟨0, [1, 2, 3, 4, 5, 6, 7, 8]⟩]) ∧
      bytesAt ([[1, 2, 3, 4, 5, 6, 7, 8], [9]].foldl (Wal.copyAndLog 64 8 false)
        ⟨fun _ => 0, 0, [], []⟩).paddr 8 8 = [1, 0, 0, 0, 0, 0, 0, 0] := by
  decide

end Wal

end StackBench.Phttpd
