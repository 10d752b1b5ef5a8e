import StackBench.Mtcp.RingBuffer

/-!
# The mTCP send buffer

`tcp_send_buffer.c`: a byte queue in a chunk of fixed size, which moves to the
front of the chunk where its tail would reach the end.
-/

namespace StackBench.Mtcp

/-- `struct tcp_send_buffer`. The pointer `head` is always `data + head_off`. -/
structure SendBuffer where
  data : ℕ → UInt8
  headOff : UInt32
  tailOff : UInt32
  len : UInt32
  cumLen : UInt64
  size : UInt32
  headSeq : UInt32
  initSeq : UInt32

/-- `SBInit`, with a chunk whose bytes are `data`. -/
def sbInit (data : ℕ → UInt8) (size initSeq : UInt32) : SendBuffer where
  data := data
  headOff := 0
  tailOff := 0
  len := 0
  cumLen := 0
  size := size
  headSeq := initSeq
  initSeq := initSeq

def sbPut (buf : SendBuffer) (data : List UInt8) : SendBuffer × ℤ :=
  if data.length = 0 then (buf, 0)
  else
    let toPut := min data.length (buf.size - buf.len).toNat
    if toPut = 0 then (buf, -2)
    else
      let moved :=
        if buf.tailOff.toNat + toPut < buf.size.toNat then
          { buf with
            data := memcpy buf.data buf.tailOff.toNat (data.take toPut)
            tailOff := buf.tailOff + UInt32.ofNat toPut }
        else
          -- if buffer overflows, move the existing payload and merge
          let chunk := memmove buf.data 0 buf.headOff.toNat buf.len.toNat
          { buf with
            data := memcpy chunk buf.len.toNat (data.take toPut)
            headOff := 0
            tailOff := buf.len + UInt32.ofNat toPut }
      ({ moved with
          len := moved.len + UInt32.ofNat toPut
          cumLen := moved.cumLen + UInt64.ofNat toPut }, toPut)

def sbRemove (buf : SendBuffer) (len : ℕ) : SendBuffer × ℤ :=
  if len = 0 then (buf, 0)
  else
    let toRemove := min len buf.len.toNat
    if toRemove = 0 then (buf, -2)
    else
      let n := UInt32.ofNat toRemove
      let buf := { buf with
        headOff := buf.headOff + n
        headSeq := buf.headSeq + n
        len := buf.len - n }
      -- if buffer is empty, move the head to 0
      let buf := if buf.len = 0 ∧ 0 < buf.headOff then { buf with headOff := 0, tailOff := 0 }
        else buf
      (buf, toRemove)

/-- The bytes from the position `pos` behind the head on. -/
def sbRead (buf : SendBuffer) (pos len : ℕ) : List UInt8 :=
  (List.range len).map fun i => buf.data (buf.headOff.toNat + pos + i)

end StackBench.Mtcp
