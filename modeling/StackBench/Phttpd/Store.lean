import StackBench.Lib.Run
import StackBench.Phttpd.BTreeMap
import StackBench.Phttpd.Request

/-!
# The key-value store of phttpd

`phttpd_req` with a memory-mapped database and the B+ tree. The body of a POST
is appended, from the start again when it does not fit, and the tree keeps its
place under the first eight bytes. A record remembers what a POST has stored
and where; no code looks at it.
-/

namespace StackBench.Phttpd

open CString (ascii)
open Phttpd.Tree (Built)

def netmapBufSize : ℕ := 2048

/-- `getpagesize()` on x86. -/
def pageSize : ℕ := 4096

def getLen : ℕ := 4

def getAligned (len align : ℕ) : ℕ :=
  let d := len &&& (align - 1)
  if d = 0 then len else len + align - d

/-- `pack`, with arguments of 32, 16 and 16 bits. -/
def pack (idx off len : ℕ) : ℕ := (idx % 2 ^ 32) <<< 32 ||| (off % 2 ^ 16) <<< 16 ||| len % 2 ^ 16

def bytesAt (mem : ℕ → UInt8) (start len : ℕ) : List UInt8 :=
  (List.range len).map fun i => mem (start + i)

def storeBytes (mem : ℕ → UInt8) (start : ℕ) (buf : List UInt8) : ℕ → UInt8 := fun i =>
  if start ≤ i ∧ i < start + buf.length then buf.getD (i - start) 0 else mem i

/-- The word of 64 bits at a place. -/
def word (mem : ℕ → UInt8) (start : ℕ) : ℕ :=
  (bytesAt mem start 8).foldr (fun b w => b.toNat + 256 * w) 0

/-- `dbctx`: size, whether it is persistent memory, the mapping, the log position and the tree. -/
structure Db where
  size : ℕ
  pm : Bool
  paddr : ℕ → UInt8
  cur : ℕ
  tree : Tree

namespace Db

/-- The unit of the log. -/
def align (db : Db) : ℕ := if db.pm then netmapBufSize else pageSize

/-- Where `copy_and_log` puts `len` bytes. -/
def place (db : Db) (len : ℕ) : ℕ :=
  if db.cur + getAligned len db.align > db.size then 0 else db.cur

/-- `copy_and_log` with a tree. -/
def copyAndLog (db : Db) (buf : List UInt8) (key : ℕ) : Option Db := do
  let cur := db.place buf.length
  let tree ← db.tree.btreeInsert key (pack (cur / netmapBufSize) 0 buf.length)
  some { db with
    paddr := storeBytes db.paddr cur buf
    tree
    cur := cur + getAligned buf.length db.align }

/-- `phttpd_req` for a GET: the content, if the key is known. The offset has 32 bits. -/
def get (db : Db) (key : ℕ) : Option (Option (List UInt8)) := do
  match ← db.tree.btreeLookup key with
  | none => some none
  | some datam =>
    let idx := (datam >>> 32) % 2 ^ 32
    let len := datam &&& 0xffff
    some (some (bytesAt db.paddr (netmapBufSize * idx % 2 ^ 32) len))

end Db

/-- The buffer as earlier requests left it, and what is read into it. -/
structure Read (stop : ℕ) where
  buf : Buffer stop
  data : Chunk

namespace Read

variable {stop : ℕ}

def mem (r : Read stop) : ℕ → UInt8 := (r.buf.write r.data).bytes

def request (r : Read stop) : Request := (r.buf.write r.data).request r.data.bytes.length

/-- The key of a GET. -/
def getKey (r : Read stop) : ℕ := word r.mem (getLen + 1)

/-- The part of the body that the read has. -/
def body (r : Read stop) (p : Post) : List UInt8 := bytesAt r.mem p.coff p.thisclen

end Read

/-- `phttpd_req`: the database afterwards and the content. -/
def phttpdReq {stop : ℕ} (db : Db) (r : Read stop) : Option (Db × Option (List UInt8)) :=
  match r.request with
  | .data => some (db, none)
  | .badPost => some (db, none)
  | .post p => (db.copyAndLog (r.body p) (word r.mem p.coff)).map fun db => (db, none)
  | .get => (db.get r.getKey).map fun content => (db, content)

/-- What a POST has stored, and where. -/
structure Record where
  key : ℕ
  start : ℕ
  body : List UInt8
deriving DecidableEq

/-- The records share space. -/
def Record.Meets (r s : Record) : Prop :=
  r.start < s.start + s.body.length ∧ s.start < r.start + r.body.length
deriving Decidable

/-- The most recent record with the key, and the records after it. The list starts with
the newest record. -/
def latestRecord (key : ℕ) : List Record → Option (Record × List Record)
  | [] => none
  | r :: log =>
    if r.key = key then some (r, [])
    else (latestRecord key log).map fun x => (x.1, r :: x.2)

/-- The database, the records of all POSTs, and whether a check has failed. -/
structure Store where
  db : Db
  log : List Record
  aborted : Bool

namespace Store

variable {stop : ℕ}

/-- The database as `init_db` leaves it, with whatever the file holds. -/
def init (size : ℕ) (pm : Bool) (file : ℕ → UInt8) : Store :=
  ⟨⟨size, pm, file, 0, Tree.create⟩, [], false⟩

def record (w : Store) (r : Read stop) : List Record :=
  match r.request with
  | .post p => ⟨word r.mem p.coff, w.db.place (r.body p).length, r.body p⟩ :: w.log
  | _ => w.log

def step (w : Store) (r : Read stop) : Store :=
  match phttpdReq w.db r with
  | none => { w with aborted := true }
  | some (db, _) => { w with db, log := w.record r }

/-- A GET, or a POST complete in a read of `len` bytes whose body has at least eight bytes and fits.
-/
def Complete (size len : ℕ) : Request → Prop
  | .post p => p.coff ≤ len ∧ p.clen = p.thisclen ∧ 8 ≤ p.thisclen ∧ p.thisclen ≤ size
  | .get => True
  | .data => False
  | .badPost => False

instance (size len : ℕ) : ∀ q : Request, Decidable (Complete size len q) := fun q => by
  cases q <;> dsimp only [Complete] <;> infer_instance

/-- The requests that clients send. -/
def Valid (w : Store) (r : Read stop) : Prop := Complete w.db.size r.data.bytes.length r.request
deriving Decidable

/-- The body of the last record, or nothing if there is none or its space was reused. -/
def Answers (content : Option (List UInt8)) : Option (Record × List Record) → Prop
  | none => content = none
  | some (r, later) => content = some r.body ∨ content = none ∧ ∃ s ∈ later, r.Meets s

instance (content : Option (List UInt8)) :
    ∀ latest : Option (Record × List Record), Decidable (Answers content latest)
  | none => inferInstanceAs (Decidable (content = none))
  | some (r, later) => inferInstanceAs (Decidable
      (content = some r.body ∨ content = none ∧ ∃ s ∈ later, r.Meets s))

/-- A GET is answered from the record of its key. -/
def Answered (w : Store) (r : Read stop) : Prop :=
  w.aborted = false ∧
    (r.request = .get → ∃ content, phttpdReq w.db r = some (w.db, content) ∧
      Answers content (latestRecord r.getKey w.log))

/-- The space of the most recent record with the key has not been reused. -/
def Kept (w : Store) (key : ℕ) : Prop := ∀ x ∈ latestRecord key w.log, ∀ s ∈ x.2, ¬x.1.Meets s
deriving Decidable

/-- A body has fewer than `2 ^ 16` bytes within the first `2 ^ 32`, and a GET finds its record in
place. -/
def Fits (w : Store) (key : ℕ) : Request → Prop
  | .post p => p.thisclen < 2 ^ 16 ∧ w.db.place p.thisclen < 2 ^ 32
  | .get => w.Kept key
  | .data => True
  | .badPost => True

instance (w : Store) (key : ℕ) : ∀ q : Request, Decidable (w.Fits key q) := fun q => by
  cases q <;> dsimp only [Fits] <;> infer_instance

/-- A valid request that fits, while the tree has fewer than `2 ^ 19` blocks. -/
def Ok (w : Store) (r : Read stop) : Prop :=
  w.Valid r ∧ w.Fits r.getKey r.request ∧ w.db.tree.used < 2 ^ 19
deriving Decidable

end Store

open Store (init step)

theorem getAligned_mod (len : ℕ) (db : Db) : getAligned len db.align % netmapBufSize = 0 := by
  have hunit : db.align = 2 ^ 11 ∨ db.align = 2 ^ 12 := by
    unfold Db.align
    split
    · exact Or.inl rfl
    · exact Or.inr rfl
  unfold getAligned netmapBufSize
  rcases hunit with h | h
  · rw [h, Nat.and_two_pow_sub_one_eq_mod]
    dsimp only
    split <;> omega
  · rw [h, Nat.and_two_pow_sub_one_eq_mod]
    dsimp only
    split <;> omega

theorem pack_eq {idx len : ℕ} (hidx : idx < 2 ^ 32) (hlen : len < 2 ^ 16) :
    pack idx 0 len = idx * 2 ^ 32 + len := by
  have hlow : len < 2 ^ 32 := hlen.trans (by decide)
  rw [pack, Nat.mod_eq_of_lt hidx, Nat.mod_eq_of_lt hlen, Nat.zero_mod, Nat.zero_shiftLeft,
    Nat.or_zero, ← Nat.shiftLeft_add_eq_or_of_lt hlow, Nat.shiftLeft_eq]

theorem unpack_pack {idx len : ℕ} (hidx : idx < 2 ^ 32) (hlen : len < 2 ^ 16) :
    (pack idx 0 len >>> 32) % 2 ^ 32 = idx ∧ pack idx 0 len &&& 0xffff = len := by
  have hmask : pack idx 0 len &&& 0xffff = pack idx 0 len % 2 ^ 16 :=
    Nat.and_two_pow_sub_one_eq_mod _ 16
  rw [hmask, pack_eq hidx hlen, Nat.shiftRight_eq_div_pow]
  omega

section Bytes

variable {mem : ℕ → UInt8} {buf : List UInt8} {start start' len : ℕ}

theorem bytesAt_storeBytes_self : bytesAt (storeBytes mem start buf) start buf.length = buf := by
  apply List.ext_getElem
  · simp [bytesAt]
  · intro i _ hi
    simp [bytesAt, storeBytes, hi]

theorem bytesAt_storeBytes_other (h : start' + len ≤ start ∨ start + buf.length ≤ start') :
    bytesAt (storeBytes mem start buf) start' len = bytesAt mem start' len := by
  apply List.map_congr_left
  intro i hi
  rw [List.mem_range] at hi
  rw [storeBytes, if_neg (by omega)]

end Bytes

theorem latestRecord_some {key : ℕ} {log : List Record} {x : Record × List Record}
    (h : latestRecord key log = some x) :
    x.1.key = key ∧ ∃ earlier, log = x.2 ++ x.1 :: earlier := by
  induction log generalizing x with
  | nil => simp [latestRecord] at h
  | cons r log ih =>
    rw [latestRecord] at h
    split at h
    · rename_i hkey
      obtain rfl := Option.some.inj h
      exact ⟨hkey, log, rfl⟩
    · obtain ⟨y, hy, rfl⟩ := Option.map_eq_some_iff.mp h
      obtain ⟨hkey, earlier, rfl⟩ := ih hy
      exact ⟨hkey, earlier, rfl⟩

namespace Store

variable {stop : ℕ} {w : Store} {r : Read stop}

/-- The tree has place and length of the last record of every key; a record not overwritten is in
its place. -/
structure Inv (w : Store) : Prop where
  running : w.aborted = false
  indexed : ∃ L rest, Built w.db.tree L rest ∧ ∀ key v, (key, v) ∈ L.flatMap w.db.tree.content ↔
    ∃ x ∈ latestRecord key w.log, v = pack (x.1.start / netmapBufSize) 0 x.1.body.length
  stored : ∀ later s earlier, w.log = later ++ s :: earlier → (∀ l ∈ later, ¬s.Meets l) →
    bytesAt w.db.paddr s.start s.body.length = s.body
  placed : ∀ s ∈ w.log, s.start % netmapBufSize = 0 ∧ s.start < 2 ^ 32 ∧ s.body.length < 2 ^ 16
  aligned : w.db.cur % netmapBufSize = 0

theorem Inv.init (size : ℕ) (pm : Bool) (file : ℕ → UInt8) : Inv (Store.init size pm file) where
  running := rfl
  indexed := by
    refine ⟨_, _, Tree.create_built, fun key v => ?_⟩
    simp [Store.init, latestRecord, Tree.content, Tree.create, Node.content, Node.fences]
  stored := by simp [Store.init]
  placed := by simp [Store.init]
  aligned := rfl

theorem Inv.get (h : Inv w) (hused : w.db.tree.used < 2 ^ 19) {key : ℕ} (hkept : w.Kept key) :
    ∃ content, w.db.get key = some content ∧ Answers content (latestRecord key w.log) := by
  obtain ⟨L, rest, hbuilt, hentries⟩ := h.indexed
  obtain ⟨found, hlookup, hfound⟩ := hbuilt.btreeLookup_spec hused key
  cases hlatest : latestRecord key w.log with
  | none =>
    have hnone : found = none := by
      cases found with
      | none => rfl
      | some v =>
        obtain ⟨x, hx, -⟩ := (hentries key v).mp ((hfound v).mp rfl)
        simp [hlatest] at hx
    exact ⟨none, by simp [Db.get, hlookup, hnone], rfl⟩
  | some x =>
    obtain ⟨-, earlier, hlog⟩ := latestRecord_some hlatest
    obtain ⟨hmod, hstart, hlen⟩ := h.placed x.1 (by rw [hlog]; simp)
    have hidx : x.1.start / netmapBufSize < 2 ^ 32 := lt_of_le_of_lt (Nat.div_le_self _ _) hstart
    obtain ⟨hunpack, hlength⟩ := unpack_pack hidx hlen
    have hoffset : netmapBufSize * (x.1.start / netmapBufSize) % 2 ^ 32 = x.1.start := by
      unfold netmapBufSize at hmod ⊢
      omega
    have hsome : found = some (pack (x.1.start / netmapBufSize) 0 x.1.body.length) :=
      (hfound _).mpr ((hentries _ _).mpr ⟨x, hlatest, rfl⟩)
    have hbody := h.stored x.2 x.1 earlier hlog (hkept x hlatest)
    refine ⟨some x.1.body, ?_, Or.inl rfl⟩
    simp only [Db.get, hlookup, hsome, Option.bind_eq_bind, Option.bind_some, hunpack, hlength,
      hoffset, hbody]

theorem Inv.place_mod (h : Inv w) (len : ℕ) : w.db.place len % netmapBufSize = 0 := by
  unfold Db.place
  split
  · rfl
  · exact h.aligned

theorem Inv.post (h : Inv w) (hused : w.db.tree.used < 2 ^ 19) {buf : List UInt8} (key : ℕ)
    (hlen : buf.length < 2 ^ 16) (hplace : w.db.place buf.length < 2 ^ 32) :
    ∃ db, w.db.copyAndLog buf key = some db ∧
      Inv { w with db, log := ⟨key, w.db.place buf.length, buf⟩ :: w.log } := by
  obtain ⟨L, rest, hbuilt, hentries⟩ := h.indexed
  obtain ⟨tree, L', rest', hinsert, hbuilt', hentries'⟩ := hbuilt.btreeInsert_spec hused key
    (pack (w.db.place buf.length / netmapBufSize) 0 buf.length)
  refine ⟨{ w.db with
      paddr := storeBytes w.db.paddr (w.db.place buf.length) buf
      tree
      cur := w.db.place buf.length + getAligned buf.length w.db.align },
    by simp only [Db.copyAndLog, hinsert, Option.bind_eq_bind, Option.bind_some],
    h.running, ⟨L', rest', hbuilt', fun k v => ?_⟩, ?_, ?_, ?_⟩
  · rw [hentries', hentries]
    by_cases hk : k = key
    · simp [latestRecord, hk]
    · simp [latestRecord, hk, Ne.symm hk]
  · intro later s earlier hlog hkept
    cases later with
    | nil =>
      obtain ⟨rfl, -⟩ := List.cons.inj hlog
      exact bytesAt_storeBytes_self
    | cons l later =>
      obtain ⟨rfl, hrest⟩ := List.cons.inj hlog
      -- the new record does not reach into the space of `s`
      have hother := hkept _ List.mem_cons_self
      rw [Record.Meets, not_and_or, Nat.not_lt, Nat.not_lt] at hother
      have hstored := h.stored later s earlier hrest
        fun l hl => hkept l (List.mem_cons_of_mem _ hl)
      exact (bytesAt_storeBytes_other hother.symm).trans hstored
  · intro s hs
    rcases List.mem_cons.mp hs with rfl | hs
    · exact ⟨h.place_mod _, hplace, hlen⟩
    · exact h.placed s hs
  · have hplace := h.place_mod buf.length
    have haligned := getAligned_mod buf.length w.db
    rw [Nat.add_mod, hplace, haligned]
    rfl

theorem Inv.step (h : Inv w) (hok : w.Ok r) : Inv (w.step r) := by
  obtain ⟨hvalid, hfits, hused⟩ := hok
  unfold Store.step phttpdReq record
  cases hreq : r.request with
  | data =>
    rw [Valid, hreq] at hvalid
    exact hvalid.elim
  | badPost =>
    rw [Valid, hreq] at hvalid
    exact hvalid.elim
  | get =>
    rw [hreq] at hfits
    obtain ⟨content, hcontent, -⟩ := h.get hused hfits
    simp only [hcontent, Option.map_some]
    exact h
  | post p =>
    rw [hreq] at hfits
    have hlen : (r.body p).length = p.thisclen := by simp [Read.body, bytesAt]
    obtain ⟨db, hdb, hinv⟩ := h.post hused (word r.mem p.coff) (hlen ▸ hfits.1) (hlen ▸ hfits.2)
    simp only [hdb, Option.map_some]
    exact hinv

/-- In every run of valid requests that fit, every GET is answered with the last POST of its key. -/
theorem gets_answered (size : ℕ) (pm : Bool) (file : ℕ → UInt8) (reads : List (Read stop))
    (r : Read stop) (hrun : Run.Admissible step Store.Ok (init size pm file) reads)
    (hr : Store.Ok (reads.foldl step (init size pm file)) r) :
    Store.Answered (reads.foldl step (init size pm file)) r := by
  have hinv : Inv (reads.foldl step (init size pm file)) :=
    hrun.invariant (Inv.init size pm file) fun _ _ h hok => h.step hok
  refine ⟨hinv.running, fun hget => ?_⟩
  obtain ⟨-, hfits, hused⟩ := hr
  rw [hget] at hfits
  obtain ⟨content, hcontent, hanswers⟩ := hinv.get hused hfits
  refine ⟨content, ?_, hanswers⟩
  simp only [phttpdReq, hget, hcontent, Option.map_some]

def shortPost : List UInt8 :=
  ascii "POST / HTTP/1.1\r\nHost: localhost\r\nUser-Agent: wrk\r\nContent-Length: 8\r\n\r\n"

def postOf (b : UInt8) : Read maxQueryLen :=
  ⟨blank, shortPost ++ List.replicate 8 b, by
    rw [List.length_append, List.length_replicate]
    decide⟩

def getOf (b : UInt8) : Read maxQueryLen :=
  ⟨blank, ascii "GET /" ++ List.replicate 8 b, by
    rw [List.length_append, List.length_replicate]
    decide⟩

theorem gets_answered_first :
    Answered ([postOf 97, postOf 98].foldl step (init 8192 true fun _ => 0))
      (getOf 97) :=
  gets_answered 8192 true (fun _ => 0) [postOf 97, postOf 98] (getOf 97) (by decide +kernel)
    (by decide +kernel)

/-- In a database of one buffer the second POST overwrites the first, and a GET for the first yields
the second. -/
theorem gets_other_body :
    Run.Admissible step Store.Valid (init 2048 true fun _ => 0)
        [postOf 97, postOf 98, getOf 97] ∧
      ¬Answered ([postOf 97, postOf 98].foldl step (init 2048 true fun _ => 0))
        (getOf 97) := by
  refine ⟨by decide +kernel, fun h => ?_⟩
  obtain ⟨content, hcontent, hanswers⟩ := h.2 (by decide +kernel)
  have hother : (phttpdReq ([postOf 97, postOf 98].foldl step
      (init 2048 true fun _ => 0)).db (getOf 97)).map Prod.snd =
        some (some (List.replicate 8 98)) := by decide +kernel
  rw [hcontent] at hother
  obtain rfl := Option.some.inj hother
  revert hanswers
  decide +kernel

end Store

end StackBench.Phttpd
