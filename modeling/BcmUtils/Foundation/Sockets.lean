import BcmUtils.Foundation.Memory

/-! # Sockets

Descriptors, datagrams, and streams that hand their bytes over in pieces. -/

namespace CLib

/-- What happens to the descriptors of a process. -/
inductive FdEvent
  | opened (fd : ℕ)
  | closed (fd : ℕ)
  deriving DecidableEq, Repr

/-- `recvfrom`: the return value and the buffer. A datagram that is longer than the buffer
loses its end. -/
def recvfrom {n : ℕ} (datagram : Option (List Byte)) (buf : Block n) : ℤ × Block n :=
  match datagram with
  | none => (-1, buf)
  | some d => ((d.take n).length, buf.overlay d)

/-- A connected stream: the bytes that the peer sends before it closes, and the outcomes of
the coming calls of `read`. A call either fails (`none`) or hands over at most `k + 1` bytes
(`some k`); later calls hand over what there is. -/
structure Conn where
  stream : List Byte
  chunks : List (Option ℕ)

namespace Conn

/-- `read` of at most `n` bytes. At the end of the stream it returns no bytes. -/
def read (n : ℕ) (c : Conn) : Option (List Byte) × Conn :=
  match c.chunks with
  | [] => (some (c.stream.take n), { c with stream := c.stream.drop n })
  | none :: chunks => (none, { c with chunks })
  | some k :: chunks =>
      (some (c.stream.take (min n (k + 1))), ⟨c.stream.drop (min n (k + 1)), chunks⟩)

/-- Calls that can still have an effect. -/
def remaining (c : Conn) : ℕ := c.chunks.length + c.stream.length

theorem remaining_read_lt {n : ℕ} {c : Conn} (hn : 0 < n)
    (hc : ¬ (c.stream = [] ∧ c.chunks = [])) : (c.read n).2.remaining < c.remaining := by
  obtain ⟨stream, chunks⟩ := c
  rcases chunks with _ | ⟨_ | k, chunks⟩
  · have hpos : 0 < stream.length := List.length_pos_iff.mpr fun h => hc ⟨h, rfl⟩
    simp only [read, remaining, List.length_nil, List.length_drop]
    omega
  · simp only [read, remaining, List.length_cons]
    omega
  · simp only [read, remaining, List.length_cons, List.length_drop]
    omega

end Conn

end CLib
