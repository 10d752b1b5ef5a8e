import StackBench.Phttpd.Request

/-!
# Isolation of connections in phttpd

A thread serves many connections through one buffer, with a leftover counter
for each descriptor. Two executions in which one connection reads the same are
compared.
-/

namespace StackBench.Phttpd

open CString (ascii)

/-- The buffer of a thread and its table `fdtable`. -/
structure Thread (stop : ℕ) where
  buf : Buffer stop
  fdtable : ℕ → Int

/-- What `mtcp_handle_event` meets: a connection is accepted, closed, or read from. -/
inductive Event where
  | accept (fd : ℕ)
  | close (fd : ℕ)
  | read (fd : ℕ) (data : Chunk)

section Serve

variable {stop : ℕ} (response : Chunk)

/-- `mtcp_httpd_read` without a database: whether the thread responds, and its state afterwards. -/
def serve (t : Thread stop) (fd : ℕ) (data : Chunk) : Bool × Thread stop :=
  let buf := t.buf.write data
  let len := data.bytes.length
  let (noOk, fde) := leftover (buf.request len) len (t.fdtable fd)
  (!noOk, ⟨if noOk then buf else buf.write response, Function.update t.fdtable fd fde⟩)

/-- One event. Neither accepting nor closing a connection touches the table. -/
def step (t : Thread stop) : Event → Thread stop
  | .accept _ => t
  | .close _ => t
  | .read fd data => (serve response t fd data).2

/-- The decisions for the reads from the descriptor `fd`. -/
def decisions (fd : ℕ) : Thread stop → List Event → List Bool
  | _, [] => []
  | t, .read j data :: evs =>
    if j = fd then
      (serve response t j data).1 :: decisions fd (serve response t j data).2 evs
    else decisions fd (serve response t j data).2 evs
  | t, ev :: evs => decisions fd (step response t ev) evs

end Serve

def reads (fd : ℕ) : List Event → List Chunk
  | [] => []
  | .read j data :: evs => if j = fd then data :: reads fd evs else reads fd evs
  | _ :: evs => reads fd evs

/-- An execution of a thread up to the end of a connection on the descriptor `fd`. -/
structure Execution (stop fd : ℕ) where
  buf : Buffer stop
  before : List Event
  during : List Event
  own : ∀ ev ∈ during, ev ≠ .accept fd ∧ ev ≠ .close fd

section Execution

variable {stop fd : ℕ} (response : Chunk)

/-- The thread when the connection is accepted. `fdtable` is all zero at first. -/
def Execution.accepted (x : Execution stop fd) : Thread stop :=
  (x.before ++ [Event.accept fd]).foldl (step response) ⟨x.buf, fun _ => 0⟩

/-- The decisions for the reads of the connection. -/
def Execution.decisions (x : Execution stop fd) : List Bool :=
  Phttpd.decisions response fd (x.accepted response) x.during

def Execution.reads (x : Execution stop fd) : List Chunk := Phttpd.reads fd x.during

end Execution

/-- The request is told by the bytes of the read. -/
def OwnBytes (stop : ℕ) (data : Chunk) : Prop :=
  ∀ i ∈ (request data.bytes.length (stop + 1)).trace (overlay data.bytes fun _ => 0),
    i < data.bytes.length
deriving Decidable

/-- The request of a read by itself. -/
def ownRequest (stop : ℕ) (data : Chunk) : Request :=
  ((request data.bytes.length (stop + 1)).run (overlay data.bytes fun _ => 0)).getD .data

/-- The decisions for a connection by itself, from its leftover counter on. -/
def alone (stop : ℕ) : Int → List Chunk → List Bool
  | _, [] => []
  | fde, data :: rest =>
    let (noOk, fde') := leftover (ownRequest stop data) data.bytes.length fde
    (!noOk) :: alone stop fde' rest

section Alone

variable {stop fd : ℕ} {response : Chunk} {data : Chunk} {t : Thread stop}

theorem OwnBytes.request_eq (h : OwnBytes stop data) (b : Buffer stop) :
    (b.write data).request data.bytes.length = ownRequest stop data := by
  have hagree : (request data.bytes.length (stop + 1)).run (b.write data).bytes =
      (request data.bytes.length (stop + 1)).run (overlay data.bytes fun _ => 0) :=
    (MemScan.replay fun i hi => overlay_of_lt (h i hi)).1
  rw [ownRequest, ← hagree]
  exact Option.get_eq_getD _

theorem OwnBytes.serve (h : OwnBytes stop data) (response : Chunk) (t : Thread stop) (fd : ℕ) :
    (serve response t fd data).1 =
        !(leftover (ownRequest stop data) data.bytes.length (t.fdtable fd)).1 ∧
      (serve response t fd data).2.fdtable fd =
        (leftover (ownRequest stop data) data.bytes.length (t.fdtable fd)).2 := by
  simp only [Phttpd.serve, h.request_eq, Function.update_self, and_self]

theorem serve_other {j : ℕ} (hj : j ≠ fd) : (serve response t j data).2.fdtable fd = t.fdtable fd :=
  Function.update_of_ne (Ne.symm hj) _ _

/-- A connection whose reads tell their requests is served as if it were alone. -/
theorem decisions_eq_alone {evs : List Event} (h : ∀ data ∈ reads fd evs, OwnBytes stop data) :
    decisions response fd t evs = alone stop (t.fdtable fd) (reads fd evs) := by
  induction evs generalizing t with
  | nil => rfl
  | cons ev evs ih =>
    cases ev with
    | accept j => exact ih h
    | close j => exact ih h
    | read j data =>
      simp only [reads, decisions] at h ⊢
      by_cases hj : j = fd
      · subst hj
        rw [if_pos rfl] at h ⊢
        rw [if_pos rfl]
        obtain ⟨hdecide, hcount⟩ := (h data List.mem_cons_self).serve response t j
        rw [alone, hdecide, ih fun data' hmem => h data' (List.mem_cons_of_mem _ hmem), hcount]
      · rw [if_neg hj] at h ⊢
        rw [if_neg hj, ih h, serve_other hj]

/-- Counters that are not positive are all the same to `phttpd_req`. -/
theorem leftover_congr (req : Request) (len : ℕ) {c c' : Int} (hc : c ≤ 0) (hc' : c' ≤ 0) :
    (leftover req len c).1 = (leftover req len c').1 ∧
      ((leftover req len c).2 = (leftover req len c').2 ∨
        (leftover req len c).2 ≤ 0 ∧ (leftover req len c').2 ≤ 0) := by
  cases req with
  | data => simp [leftover, hc, hc']
  | badPost => exact ⟨rfl, Or.inr ⟨hc, hc'⟩⟩
  | get => exact ⟨rfl, Or.inr ⟨hc, hc'⟩⟩
  | post p =>
    by_cases hmore : p.clen > p.thisclen
    · simp [leftover, hmore]
    · simp [leftover, hmore, hc, hc']

theorem alone_congr {c c' : Int} (hc : c ≤ 0) (hc' : c' ≤ 0) (xs : List Chunk) :
    alone stop c xs = alone stop c' xs := by
  induction xs generalizing c c' with
  | nil => rfl
  | cons data rest ih =>
    obtain ⟨hdecide, hcount⟩ := leftover_congr (ownRequest stop data) data.bytes.length hc hc'
    simp only [alone]
    rw [hdecide]
    rcases hcount with heq | ⟨hle, hle'⟩
    · rw [heq]
    · rw [ih hle hle']

end Alone

/-- Connections with the same reads get the same, if nothing is left over and reads tell requests.
-/
theorem requests_isolated {stop fd : ℕ} (response response' : Chunk) (x y : Execution stop fd)
    (hreads : x.reads = y.reads) (hx : (x.accepted response).fdtable fd ≤ 0)
    (hy : (y.accepted response').fdtable fd ≤ 0) (hown : ∀ data ∈ x.reads, OwnBytes stop data) :
    x.decisions response = y.decisions response' := by
  have hyown : ∀ data ∈ y.reads, OwnBytes stop data := hreads ▸ hown
  rw [Execution.decisions, Execution.decisions, decisions_eq_alone hown,
    decisions_eq_alone hyown]
  have hsame : Phttpd.reads fd x.during = Phttpd.reads fd y.during := hreads
  rw [hsame]
  exact alone_congr hx hy _

def okResponse : Chunk := ⟨ascii "HTTP/1.1 200 OK\r\n\r\n", by decide⟩

def postHeader : Chunk :=
  ⟨ascii "POST / HTTP/1.1\r\nHost: localhost\r\nUser-Agent: wrk\r\nContent-Length: 20\r\n\r\n",
    by decide⟩

def content : Chunk := ⟨List.replicate 20 97, by decide⟩

def getStart : Chunk := ⟨ascii "GE", by decide⟩

def otherData : Chunk := ⟨ascii "..T ", by decide⟩

/-- The connection on descriptor 5 reads `data` after the events `before`. -/
def readAfter (before : List Event) (data : Chunk) : Execution maxQueryLen 5 :=
  ⟨blank, before, [.read 5 data], by simp⟩

def postBeside : Execution maxQueryLen 5 :=
  ⟨blank, [.accept 6], [.read 5 postHeader, .read 6 otherData, .read 5 content], by simp⟩

def postAlone : Execution maxQueryLen 5 :=
  ⟨blank, [], [.read 5 postHeader, .read 5 content], by simp⟩

theorem requests_isolated_post :
    (∀ data ∈ postBeside.reads, OwnBytes maxQueryLen data) ∧
      postBeside.decisions okResponse = postAlone.decisions okResponse :=
  ⟨by decide +kernel, requests_isolated okResponse okResponse postBeside postAlone rfl
    (by decide +kernel) (by decide +kernel) (by decide +kernel)⟩

/-- A counter or bytes left by another connection decide about a response. -/
theorem requests_not_isolated :
    ((readAfter [.accept 5, .read 5 postHeader, .close 5] content).reads =
          (readAfter [] content).reads ∧
        (readAfter [.accept 5, .read 5 postHeader, .close 5] content).decisions okResponse =
          [true] ∧
        (readAfter [] content).decisions okResponse = [false]) ∧
      (readAfter [.accept 6, .read 6 otherData] getStart).reads = (readAfter [] getStart).reads ∧
        (readAfter [.accept 6, .read 6 otherData] getStart).decisions okResponse = [true] ∧
        (readAfter [] getStart).decisions okResponse = [false] :=
  ⟨⟨rfl, by decide +kernel, by decide +kernel⟩, rfl, by decide +kernel, by decide +kernel⟩

end StackBench.Phttpd
