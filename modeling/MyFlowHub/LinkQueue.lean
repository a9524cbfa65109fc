/-
The byte budget of a link queue (`runtime/link/queue.go`).

A push loads the counter, reserves the bytes of its frame by compare-and-swap and then puts the
frame into the channel or gives the bytes back.  Each of these is a step of its own, and what the
goroutines do next with their frames are the tasks of the queue.

* **`bytes_accounted`** — the counter is the bytes of the frames that are reserved, queued or held.
-/
import MyFlowHub.Envelope

open List

namespace LinkSession

inductive Task where
  /-- `push` loads the counter -/
  | load (e : Envelope)
  /-- `push` compares and swaps -/
  | swap (e : Envelope) (before : ℤ)
  /-- the `select` of `push` -/
  | enqueue (e : Envelope)
  /-- a consumer is done with the frame, or `push` found the channel full -/
  | release (e : Envelope)
  deriving DecidableEq

structure EnvelopeQueue where
  count : ℕ
  maxBytes : ℤ
  frames : List Envelope := []
  bytes : ℤ := 0
  tasks : List Task := []

def envelopeBytes (e : Envelope) : ℕ :=
  512 + e.payload.length + e.contentType.utf8ByteSize + e.schema.utf8ByteSize +
    e.capability.utf8ByteSize + e.resource.name.utf8ByteSize

def Task.bytes : Task → ℕ
  | .load _ | .swap _ _ => 0
  | .enqueue e | .release e => envelopeBytes e

inductive QueueAct where
  | push (e : Envelope)
  | run (t : Task)
  /-- the writer or the dispatcher takes a frame -/
  | dequeue

namespace EnvelopeQueue

variable {q : EnvelopeQueue} {t : Task}

def add (q : EnvelopeQueue) (t : Task) : EnvelopeQueue := { q with tasks := t :: q.tasks }

def advance (q : EnvelopeQueue) : Task → EnvelopeQueue
  | .load e =>
    if 0 < q.maxBytes ∧ q.maxBytes - q.bytes < envelopeBytes e then q else q.add (.swap e q.bytes)
  | .swap e before =>
    if q.bytes = before then { q with bytes := before + envelopeBytes e }.add (.enqueue e)
    else q.add (.load e)
  | .enqueue e =>
    if q.frames.length < q.count then { q with frames := q.frames ++ [e] } else q.add (.release e)
  | .release e => { q with bytes := q.bytes - envelopeBytes e }

def step (q : EnvelopeQueue) : QueueAct → EnvelopeQueue
  | .push e => q.add (.load e)
  | .run t => if t ∈ q.tasks then { q with tasks := q.tasks.erase t }.advance t else q
  | .dequeue =>
    match q.frames with
    | [] => q
    | e :: rest => { q with frames := rest }.add (.release e)

/-- The bytes of the frames that are reserved, queued or held. -/
def owned (q : EnvelopeQueue) : ℕ :=
  (q.frames.map envelopeBytes).sum + (q.tasks.map Task.bytes).sum

/-- A push that is about to swap has checked the limit. -/
def Within (maxBytes : ℤ) : Task → Prop
  | .swap e before => before + envelopeBytes e ≤ maxBytes
  | _ => True

/-- What every step keeps; `n` are the bytes of a frame between two places. -/
structure Accounted (maxBytes : ℤ) (n : ℕ) (q : EnvelopeQueue) : Prop where
  max_eq : q.maxBytes = maxBytes
  bytes_eq : q.bytes = q.owned + n
  bytes_le : q.bytes ≤ maxBytes
  room : ∀ t ∈ q.tasks, Within maxBytes t

variable {maxBytes : ℤ}

theorem Accounted.add (h : Accounted maxBytes t.bytes q) (ht : Within maxBytes t) :
    Accounted maxBytes 0 (q.add t) := by
  refine ⟨h.max_eq, ?_, h.bytes_le, forall_mem_cons.mpr ⟨ht, h.room⟩⟩
  have hbytes := h.bytes_eq
  simp only [EnvelopeQueue.add, owned, map_cons, sum_cons] at hbytes ⊢
  omega

theorem Accounted.erase (h : Accounted maxBytes 0 q) (ht : t ∈ q.tasks) :
    Accounted maxBytes t.bytes { q with tasks := q.tasks.erase t } := by
  refine ⟨h.max_eq, ?_, h.bytes_le, fun u hu => h.room u (mem_of_mem_erase hu)⟩
  have hbytes := h.bytes_eq
  have hsum := sum_map_erase Task.bytes ht
  simp only [owned] at hbytes ⊢
  omega

theorem Accounted.advance (h : Accounted maxBytes t.bytes q) (hmax : 0 < maxBytes)
    (ht : Within maxBytes t) : Accounted maxBytes 0 (q.advance t) := by
  obtain ⟨rfl, hbytes, hle, hroom⟩ := id h
  cases t with
  | load e =>
    rw [EnvelopeQueue.advance]
    split_ifs with hfull
    · exact h
    · -- the limit was checked against the counter that the swap expects
      refine Accounted.add h ?_
      simp only [Within]
      omega
  | swap e before =>
    rw [EnvelopeQueue.advance]
    split_ifs with hsame
    · refine Accounted.add ⟨rfl, ?_, ht, hroom⟩ trivial
      simp only [owned, Task.bytes] at hbytes ⊢
      omega
    · exact Accounted.add h trivial
  | enqueue e =>
    rw [EnvelopeQueue.advance]
    split_ifs
    · refine ⟨rfl, ?_, hle, hroom⟩
      simp only [owned, Task.bytes, map_append, map_singleton, sum_append,
        sum_singleton] at hbytes ⊢
      omega
    · exact Accounted.add h trivial
  | release e =>
    simp only [EnvelopeQueue.advance, owned, Task.bytes] at hbytes ⊢
    refine ⟨rfl, ?_, ?_, hroom⟩
    · simp only [owned]
      omega
    · show q.bytes - envelopeBytes e ≤ q.maxBytes
      omega

theorem Accounted.step (h : Accounted maxBytes 0 q) (hmax : 0 < maxBytes) (a : QueueAct) :
    Accounted maxBytes 0 (q.step a) := by
  cases a with
  | push e => exact Accounted.add h trivial
  | run t =>
    rw [EnvelopeQueue.step]
    split_ifs with ht
    · exact (h.erase ht).advance hmax (h.room t ht)
    · exact h
  | dequeue =>
    rw [EnvelopeQueue.step]
    split
    · exact h
    · next e rest hframes =>
      refine Accounted.add ⟨h.max_eq, ?_, h.bytes_le, h.room⟩ trivial
      have hbytes := h.bytes_eq
      simp only [owned, hframes, map_cons, sum_cons, Task.bytes] at hbytes ⊢
      omega

/-- **The byte counter of a queue is exact** in every interleaving, and within its limit. -/
theorem bytes_accounted (count : ℕ) (maxBytes : ℤ) (hmax : 0 < maxBytes) (as : List QueueAct) :
    let q := as.foldl step ⟨count, maxBytes, [], 0, []⟩
    q.bytes = q.owned ∧ 0 ≤ q.bytes ∧ q.bytes ≤ maxBytes := by
  have h : Accounted maxBytes 0 (as.foldl step ⟨count, maxBytes, [], 0, []⟩) := by
    refine foldlRecOn as step ⟨rfl, rfl, hmax.le, fun _ hm => absurd hm not_mem_nil⟩ ?_
    exact fun q h a _ => h.step hmax a
  exact ⟨h.bytes_eq, by rw [h.bytes_eq]; exact Int.natCast_nonneg _, h.bytes_le⟩

def plainFrame (id : MessageID) : Envelope where
  phase := .request
  operation := .join
  messageID := id
  source := 1
  target := 2

/-- A frame is queued, another one finds the channel full, and the first is taken and released. -/
def plainRun : List QueueAct :=
  [.push (plainFrame 1), .run (.load (plainFrame 1)), .run (.swap (plainFrame 1) 0),
    .run (.enqueue (plainFrame 1)), .push (plainFrame 2), .run (.load (plainFrame 2)),
    .run (.swap (plainFrame 2) 512), .run (.enqueue (plainFrame 2)),
    .run (.release (plainFrame 2)), .dequeue, .run (.release (plainFrame 1))]

theorem bytes_accounted_one : (0 : ℤ) < 1100 ∧
    ((plainRun.take 8).foldl step ⟨1, 1100, [], 0, []⟩).frames = [plainFrame 1] ∧
    ((plainRun.take 8).foldl step ⟨1, 1100, [], 0, []⟩).tasks = [.release (plainFrame 2)] ∧
    (plainRun.foldl step ⟨1, 1100, [], 0, []⟩).tasks = [] ∧
    let q := plainRun.foldl step ⟨1, 1100, [], 0, []⟩
    q.bytes = q.owned ∧ 0 ≤ q.bytes ∧ q.bytes ≤ 1100 := by
  refine ⟨by decide, ?_, ?_, ?_, bytes_accounted 1 1100 (by decide) plainRun⟩
  · decide +kernel
  · decide +kernel
  · decide +kernel

end EnvelopeQueue

end LinkSession
