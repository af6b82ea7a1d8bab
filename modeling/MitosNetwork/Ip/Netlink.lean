import MitosNetwork.Common.Wire
import MitosNetwork.Errors.Error

/-!
# The netlink transport

`NlSocket` of `src/ip/netlink.rs`: framing, sequence numbers and the receive loop behind `request`
and `dump`. The socket is the list of what its receives bring in turn. A receive with nothing left
blocks, and a message whose padding is cut off makes the walk over a datagram slice out of range.

The loop keeps every `NLMSG_ERROR`, whatever its sequence number, and ends after a datagram with
one; `request_attributed_iff` says for which datagrams an answer of `request` is still the answer to
its own message, and `dump_eq_bodies` that a dump does not depend on where its datagrams are cut.
-/

namespace MitosNetwork.Netlink

open Wire List

variable {d : List UInt8}

/-- What depends on the machine: its byte order and the texts of `io::Error::from_raw_os_error`. -/
structure Platform where
  order : ByteOrder
  strerror : Int32 → String

/-! ## Messages -/

def nlmsgHdrlen : ℕ := 16
def nlmsgError : UInt16 := 2
def nlmsgDone : UInt16 := 3
def nlmFRequest : UInt16 := 0x01
def nlmFMulti : UInt16 := 0x02
def nlmFAck : UInt16 := 0x04
def nlmFDump : UInt16 := 0x100 ||| 0x200

/-- `align`: the next multiple of `NLMSG_ALIGNTO`. -/
def align (len : ℕ) : ℕ := (len + 3) / 4 * 4

structure Message where
  msgType : UInt16
  flags : UInt16
  seq : UInt32
  body : List UInt8
deriving DecidableEq

def Message.isMulti (m : Message) : Bool := m.flags &&& nlmFMulti != 0

/-- A message on the wire: with the port id of its sender and the bytes up to the next message. -/
structure Frame where
  message : Message
  pid : UInt32
  pad : List UInt8

/-- `nlmsg_len`: header and payload. -/
def Frame.len (f : Frame) : ℕ := nlmsgHdrlen + f.message.body.length

variable (order : ByteOrder)

def Frame.bytes (f : Frame) : List UInt8 :=
  order.bytes 4 f.len ++ (order.bytes 2 f.message.msgType.toNat ++
    (order.bytes 2 f.message.flags.toNat ++ (order.bytes 4 f.message.seq.toNat ++
      (order.bytes 4 f.pid.toNat ++ (f.message.body ++ f.pad)))))

def Message.frame (m : Message) (pid : UInt32) : Frame :=
  ⟨m, pid, List.replicate (align (nlmsgHdrlen + m.body.length) - (nlmsgHdrlen + m.body.length)) 0⟩

/-- The message at the start of `rest`, which spans `len` bytes. -/
def readMessage (rest : List UInt8) (len : ℕ) : Message where
  msgType := UInt16.ofNat (order.nat (rest.extract 4 6))
  flags := UInt16.ofNat (order.nat (rest.extract 6 8))
  seq := UInt32.ofNat (order.nat (rest.extract 8 12))
  body := rest.extract nlmsgHdrlen len

/-- The loop over the bytes of a datagram, which `recv_until_done` and `recv_multicast` share: its
messages up to the first with an impossible length, and whether it sliced out of range after one.
Each turn takes a header at least, so `n` turns do for `n` bytes. -/
def walk (order : ByteOrder) : ℕ → List UInt8 → List Message × Bool
  | 0, _ => ([], false)
  | n + 1, rest =>
    let len := order.nat (rest.extract 0 4)
    if rest.length < nlmsgHdrlen ∨ len < nlmsgHdrlen ∨ rest.length < len then ([], false)
    else if rest.length < align len then ([readMessage order rest len], true)
    else
      let next := walk order n (rest.drop (align len))
      (readMessage order rest len :: next.1, next.2)

def messages (d : List UInt8) : List Message := (walk order d.length d).1

def overruns (d : List UInt8) : Bool := (walk order d.length d).2

/-! ## The socket -/

/-- What a `recv` brings: a datagram, or the text of an error. -/
abbrev Recv := Except String (List UInt8)

/-- How a call on the socket ends. -/
inductive Outcome (α : Type) where
  | returned (r : Result α)
  | panicked
  | blocked
deriving DecidableEq

/-- Goes on with a returned value. -/
def Outcome.andThen {α β : Type} (o : Outcome α) (f : α → Result β) : Outcome β :=
  match o with
  | returned (.ok a) => returned (f a)
  | returned (.error e) => returned (.error e)
  | panicked => panicked
  | blocked => blocked

/-- `NlSocket`, with what its receives will bring. -/
structure NlSocket where
  seq : UInt32
  queue : List Recv

variable (p : Platform)

/-- `NlSocket::send`: the bytes and their sequence number, and the socket afterwards. The kernel
fills in the port id. -/
def send (sock : NlSocket) (msgType flags : UInt16) (payload : List UInt8) :
    List UInt8 × UInt32 × NlSocket :=
  (((Message.mk msgType flags sock.seq payload).frame 0).bytes p.order, sock.seq,
    { sock with seq := sock.seq + 1 })

def sendError (e : String) : NetworkError := .netlink ("send() failed: " ++ e)

/-- A message as the receive loop keeps it: type, flags and payload. -/
abbrev Reply := UInt16 × UInt16 × List UInt8

/-- What the receive loop has kept and whether it ends with this datagram. -/
structure Batch where
  out : List Reply
  done : Bool

/-- One turn of the inner loop of `recv_until_done`. -/
def absorb (seq : UInt32) (b : Batch) (m : Message) : Batch :=
  let mine := m.seq = seq ∨ m.msgType = nlmsgError
  let out := if mine ∧ m.msgType ≠ nlmsgDone then b.out ++ [(m.msgType, m.flags, m.body)] else b.out
  let done := b.done || (mine ∧ m.msgType = nlmsgDone)
  if !m.isMulti ∧ m.msgType ≠ nlmsgDone then
    ⟨out, done || m.msgType = nlmsgError || m.seq = seq⟩
  else ⟨out, done⟩

def bufferSize : ℕ := 32 * 1024

def isErrorReply (r : Reply) : Bool := r.1 = nlmsgError

/-- `NlSocket::recv_until_done` with the replies kept so far: the result and what is still queued.
-/
def recvUntilDone (order : ByteOrder) (seq : UInt32) :
    List Recv → List Reply → Outcome (List Reply) × List Recv
  | [], _ => (.blocked, [])
  | .error e :: queue, _ => (.returned (.error (.netlink ("recv() failed: " ++ e))), queue)
  | .ok bytes :: queue, out =>
    let d := bytes.take bufferSize
    if overruns order d then (.panicked, queue)
    else
      let b := (messages order d).foldl (absorb seq) ⟨out, false⟩
      if b.done || b.out.any isErrorReply || d.isEmpty then (.returned (.ok b.out), queue)
      else recvUntilDone order seq queue b.out

/-- `check_ack`. In a release build the negation wraps. -/
def checkAck (body : List UInt8) : Result Unit :=
  if body.length < 4 then .error (.netlink "truncated ack")
  else
    let errno := (UInt32.ofNat (p.order.nat (body.take 4))).toInt32
    if errno = 0 then .ok () else .error (.netlink (p.strerror (-errno)))

/-- The loop of `request` over the replies. -/
def checkReplies (p : Platform) : List Reply → Result Unit
  | [] => .ok ()
  | r :: replies =>
    if r.1 = nlmsgError then
      match checkAck p r.2.2 with
      | .ok () => checkReplies p replies
      | .error e => .error e
    else checkReplies p replies

/-- The loop of `dump` over the replies. -/
def collectReplies (p : Platform) : List Reply → List (List UInt8) → Result (List (List UInt8))
  | [], out => .ok out
  | r :: replies, out =>
    if r.1 = nlmsgError then
      match checkAck p r.2.2 with
      | .ok () => collectReplies p replies out
      | .error e => .error e
    else if r.1 ≠ nlmsgDone then collectReplies p replies (out ++ [r.2.2])
    else collectReplies p replies out

/-- A request and its answer: `sent` is the outcome of `send(2)`, `finish` the loop over the
replies. -/
def exchange {α : Type} (p : Platform) (finish : List Reply → Result α) (sock : NlSocket)
    (msgType flags : UInt16) (payload : List UInt8) (sent : Except String Unit) :
    Outcome α × NlSocket :=
  let (_, seq, sock) := send p sock msgType flags payload
  match sent with
  | .error e => (.returned (.error (sendError e)), sock)
  | .ok () =>
    let (outcome, queue) := recvUntilDone p.order seq sock.queue []
    (outcome.andThen finish, { sock with queue })

/-- `NlSocket::request`. -/
def request (sock : NlSocket) (msgType flags : UInt16) (payload : List UInt8)
    (sent : Except String Unit) : Outcome Unit × NlSocket :=
  exchange p (checkReplies p) sock msgType (flags ||| (nlmFRequest ||| nlmFAck)) payload sent

/-- `NlSocket::dump`. -/
def dump (sock : NlSocket) (msgType : UInt16) (payload : List UInt8) (sent : Except String Unit) :
    Outcome (List (List UInt8)) × NlSocket :=
  exchange p (collectReplies p · []) sock msgType (nlmFRequest ||| nlmFDump) payload sent

/-! ## The receive loop -/

variable {p} {order} {seq : UInt32}

def keep (seq : UInt32) (m : Message) : Option Reply :=
  if (m.seq = seq ∨ m.msgType = nlmsgError) ∧ m.msgType ≠ nlmsgDone then
    some (m.msgType, m.flags, m.body)
  else none

/-- A message after whose datagram the receive loop ends: any error, the own `NLMSG_DONE`, and any
other own message without `NLM_F_MULTI`. -/
def Message.ends (seq : UInt32) (m : Message) : Bool :=
  m.msgType = nlmsgError || (m.seq = seq && (m.msgType = nlmsgDone || !m.isMulti))

def endsExchange (order : ByteOrder) (seq : UInt32) (d : List UInt8) : Bool :=
  overruns order d || (messages order d).any (Message.ends seq) || d.isEmpty

theorem absorb_eq (seq : UInt32) (b : Batch) (m : Message) : ∃ stops : Bool,
    absorb seq b m = ⟨b.out ++ (keep seq m).toList, b.done || stops⟩ ∧
      (stops || (keep seq m).toList.any isErrorReply) = m.ends seq := by
  have hne : nlmsgError ≠ nlmsgDone := by decide
  by_cases herr : m.msgType = nlmsgError
  · refine ⟨!m.isMulti, ?_, ?_⟩
    · cases hm : m.isMulti <;> simp [absorb, keep, herr, hm, hne]
    · simp [keep, herr, hne, isErrorReply, Message.ends]
  · by_cases hseq : m.seq = seq
    · by_cases hdone : m.msgType = nlmsgDone
      · refine ⟨true, ?_, ?_⟩
        · simp [absorb, keep, hdone, hseq]
        · simp [Message.ends, hdone, hseq]
      · refine ⟨!m.isMulti, ?_, ?_⟩
        · cases hm : m.isMulti <;> simp [absorb, keep, hdone, hseq, herr, hm]
        · simp [keep, hdone, hseq, herr, isErrorReply, Message.ends]
    · refine ⟨false, ?_, ?_⟩
      · cases hm : m.isMulti <;> simp [absorb, keep, hseq, herr, hm]
      · simp [keep, hseq, herr, Message.ends]

theorem foldl_absorb (seq : UInt32) (ms : List Message) (b : Batch) : ∃ stops : Bool,
    ms.foldl (absorb seq) b = ⟨b.out ++ ms.filterMap (keep seq), b.done || stops⟩ ∧
      (stops || (ms.filterMap (keep seq)).any isErrorReply) = ms.any (Message.ends seq) := by
  induction ms generalizing b with
  | nil => exact ⟨false, by simp, rfl⟩
  | cons m ms ih =>
    obtain ⟨stops, habsorb, hends⟩ := absorb_eq seq b m
    obtain ⟨rest, hfold, hany⟩ := ih (absorb seq b m)
    have hkept : (m :: ms).filterMap (keep seq) =
        (keep seq m).toList ++ ms.filterMap (keep seq) := by
      cases h : keep seq m with
      | none => exact filterMap_cons_none h
      | some r => exact filterMap_cons_some h
    refine ⟨stops || rest, ?_, ?_⟩
    · rw [foldl_cons, hfold, habsorb, hkept]
      simp [Bool.or_assoc]
    · rw [hkept, any_append, any_cons, ← hends, ← hany]
      ac_rfl

variable {out : List Reply}

theorem recvUntilDone_cons (bytes : List UInt8) (queue : List Recv)
    (hout : out.any isErrorReply = false) :
    recvUntilDone order seq (.ok bytes :: queue) out =
      if overruns order (bytes.take bufferSize) then (.panicked, queue)
      else if endsExchange order seq (bytes.take bufferSize) then
        (.returned (.ok (out ++ (messages order (bytes.take bufferSize)).filterMap (keep seq))),
          queue)
      else recvUntilDone order seq queue
        (out ++ (messages order (bytes.take bufferSize)).filterMap (keep seq)) := by
  obtain ⟨stops, hfold, hends⟩ :=
    foldl_absorb seq (messages order (bytes.take bufferSize)) ⟨out, false⟩
  rw [recvUntilDone]
  cases hover : overruns order (bytes.take bufferSize) with
  | true => rfl
  | false =>
    simp only [hfold, any_append, hout, Bool.false_or, endsExchange, hover, hends]

theorem recvUntilDone_cons_of_ends {bytes : List UInt8} (queue : List Recv)
    (hout : out.any isErrorReply = false)
    (hends : endsExchange order seq (bytes.take bufferSize) = true) :
    recvUntilDone order seq (.ok bytes :: queue) out =
      (if overruns order (bytes.take bufferSize) then .panicked
        else .returned
          (.ok (out ++ (messages order (bytes.take bufferSize)).filterMap (keep seq))), queue) := by
  rw [recvUntilDone_cons bytes queue hout]
  split <;> rfl

theorem recvUntilDone_cons_of_not_ends {bytes : List UInt8} (queue : List Recv)
    (hout : out.any isErrorReply = false)
    (hends : endsExchange order seq (bytes.take bufferSize) = false) :
    ∃ out', out' = out ++ (messages order (bytes.take bufferSize)).filterMap (keep seq) ∧
      out'.any isErrorReply = false ∧
      recvUntilDone order seq (.ok bytes :: queue) out = recvUntilDone order seq queue out' := by
  obtain ⟨stops, -, hany⟩ := foldl_absorb seq (messages order (bytes.take bufferSize)) ⟨[], false⟩
  have hpts := hends
  simp only [endsExchange, Bool.or_eq_false_iff] at hpts
  rw [hpts.1.2, Bool.or_eq_false_iff] at hany
  refine ⟨_, rfl, ?_, ?_⟩
  · rw [any_append, hout, hany.2]
    rfl
  · rw [recvUntilDone_cons bytes queue hout, hpts.1.1, hends]
    rfl

/-! ## Which answers count -/

/-- The first datagram of the queue at which the receive loop ends, as far as it fits the buffer. -/
def firstEnding (order : ByteOrder) (seq : UInt32) : List Recv → Option (List UInt8)
  | .ok bytes :: queue =>
    if endsExchange order seq (bytes.take bufferSize) then some (bytes.take bufferSize)
    else firstEnding order seq queue
  | .error _ :: _ => none
  | [] => none

def messagesOf (order : ByteOrder) : Recv → List Message
  | .ok bytes => messages order (bytes.take bufferSize)
  | .error _ => []

/-- The messages that were received between two states of the queue. -/
def received (order : ByteOrder) (before after : List Recv) : List Message :=
  (before.take (before.length - after.length)).flatMap (messagesOf order)

/-- The error code of a reply, if it is long enough to hold one. -/
def errno (order : ByteOrder) (body : List UInt8) : Option Int32 :=
  if body.length < 4 then none else some (UInt32.ofNat (order.nat (body.take 4))).toInt32

theorem checkAck_eq_ok_iff {body : List UInt8} :
    checkAck p body = .ok () ↔ errno p.order body = some 0 := by
  simp only [checkAck, errno]
  split
  · simp
  · split <;> simp_all

/-- `m` answers the request `seq`: an error message with its number. -/
def Message.Answers (seq : UInt32) (m : Message) : Prop := m.msgType = nlmsgError ∧ m.seq = seq

/-- An answer of the socket that belongs to the request: a success comes with the own
acknowledgement, and an own error code is reported. -/
structure Attributed (p : Platform) (sock : NlSocket) (ran : Outcome Unit × NlSocket) : Prop where
  ok : ran.1 = .returned (.ok ()) → ∃ m ∈ received p.order sock.queue ran.2.queue,
    m.Answers sock.seq ∧ errno p.order m.body = some 0
  err : ∀ m ∈ received p.order sock.queue ran.2.queue, m.Answers sock.seq →
    ∀ code, errno p.order m.body = some code → code ≠ 0 → ∃ e, ran.1 = .returned (.error e)

/-- The last datagram of an exchange decides it rightly: it holds the own acknowledgement or an
error message that makes the request fail. If the walk over it slices out of range, the request does
not return, and there must be no own error code to report. -/
def Decides (order : ByteOrder) (seq : UInt32) (d : List UInt8) : Prop :=
  if overruns order d then
    ∀ m ∈ messages order d, m.Answers seq → errno order m.body = none ∨ errno order m.body = some 0
  else ∃ m ∈ messages order d, m.msgType = nlmsgError ∧ (m.seq = seq ∨ errno order m.body ≠ some 0)

theorem checkReplies_eq_ok_iff {replies : List Reply} :
    checkReplies p replies = .ok () ↔
      ∀ r ∈ replies, r.1 = nlmsgError → errno p.order r.2.2 = some 0 := by
  induction replies with
  | nil => simp [checkReplies]
  | cons r replies ih =>
    rw [checkReplies, forall_mem_cons]
    by_cases herr : r.1 = nlmsgError
    · rw [← checkAck_eq_ok_iff]
      cases hchk : checkAck p r.2.2 with
      | ok u => simpa [herr] using ih
      | error e => simp [herr]
    · rw [if_neg herr, ih]
      simp [herr]

theorem length_recvUntilDone_le (queue : List Recv) (out : List Reply) :
    (recvUntilDone order seq queue out).2.length ≤ queue.length := by
  induction queue generalizing out with
  | nil => exact le_rfl
  | cons recv queue ih =>
    cases recv with
    | error e => exact Nat.le_succ _
    | ok bytes =>
      simp only [recvUntilDone]
      split
      · exact Nat.le_succ _
      · split
        · exact Nat.le_succ _
        · exact (ih _).trans (Nat.le_succ _)

variable {queue : List Recv}

theorem received_cons (recv : Recv) {after : List Recv} (h : after.length ≤ queue.length) :
    received order (recv :: queue) after = messagesOf order recv ++ received order queue after := by
  have hlen : (recv :: queue).length - after.length = queue.length - after.length + 1 := by
    rw [length_cons]
    omega
  rw [received, hlen, take_succ_cons, flatMap_cons, received]

@[simp] theorem received_self (queue : List Recv) : received order queue queue = [] := by
  simp [received]

theorem msgType_ne_of_not_endsExchange (h : endsExchange order seq d = false) {m : Message}
    (hm : m ∈ messages order d) : m.msgType ≠ nlmsgError := by
  intro herr
  have hends : (messages order d).any (Message.ends seq) = true :=
    any_eq_true.mpr ⟨m, hm, by simp [Message.ends, herr]⟩
  simp [endsExchange, hends] at h

theorem recvUntilDone_of_firstEnding_eq_none (hout : out.any isErrorReply = false)
    (h : firstEnding order seq queue = none) :
    (∀ replies, (recvUntilDone order seq queue out).1 ≠ .returned (.ok replies)) ∧
      ∀ m ∈ received order queue (recvUntilDone order seq queue out).2, m.msgType ≠ nlmsgError := by
  induction queue generalizing out with
  | nil => exact ⟨nofun, by simp [received]⟩
  | cons recv queue ih =>
    cases recv with
    | error e =>
      refine ⟨fun replies hr => ?_, ?_⟩
      · simp [recvUntilDone] at hr
      · simp [recvUntilDone, received_cons, messagesOf]
    | ok bytes =>
      rw [firstEnding] at h
      split at h
      · cases h
      · rename_i hends
        rw [Bool.not_eq_true] at hends
        obtain ⟨out', -, hout', hrun⟩ := recvUntilDone_cons_of_not_ends queue hout hends
        rw [hrun]
        refine ⟨(ih hout' h).1, fun m hm => ?_⟩
        rw [received_cons _ (length_recvUntilDone_le _ _), mem_append] at hm
        rcases hm with hm | hm
        · exact msgType_ne_of_not_endsExchange hends hm
        · exact (ih hout' h).2 m hm

theorem recvUntilDone_of_firstEnding_eq_some (hout : out.any isErrorReply = false)
    (h : firstEnding order seq queue = some d) :
    ∃ kept : List Reply, kept.any isErrorReply = false ∧
      (recvUntilDone order seq queue out).1 = (if overruns order d then .panicked
        else .returned (.ok (kept ++ (messages order d).filterMap (keep seq)))) ∧
      ∀ m, m.msgType = nlmsgError →
        (m ∈ received order queue (recvUntilDone order seq queue out).2 ↔
          m ∈ messages order d) := by
  induction queue generalizing out with
  | nil => cases h
  | cons recv queue ih =>
    cases recv with
    | error e => cases h
    | ok bytes =>
      rw [firstEnding] at h
      split at h
      · rename_i hends
        cases h
        rw [recvUntilDone_cons_of_ends queue hout hends]
        refine ⟨out, hout, rfl, fun m _ => ?_⟩
        rw [received_cons _ le_rfl, received_self, append_nil]
        rfl
      · rename_i hends
        rw [Bool.not_eq_true] at hends
        obtain ⟨out', -, hout', hrun⟩ := recvUntilDone_cons_of_not_ends queue hout hends
        obtain ⟨kept, hkept, houtcome, hrcv⟩ := ih hout' h
        rw [hrun]
        refine ⟨kept, hkept, houtcome, fun m hm => ?_⟩
        rw [received_cons _ (length_recvUntilDone_le _ _), mem_append, ← hrcv m hm]
        exact or_iff_right fun hmem => msgType_ne_of_not_endsExchange hends hmem hm

theorem keep_of_error {m : Message} (h : m.msgType = nlmsgError) :
    keep seq m = some (m.msgType, m.flags, m.body) := by
  refine if_pos ⟨.inr h, ?_⟩
  rw [h]
  decide

theorem checkReplies_append_keep {kept : List Reply} {ms : List Message}
    (hkept : kept.any isErrorReply = false) :
    checkReplies p (kept ++ ms.filterMap (keep seq)) = .ok () ↔
      ∀ m ∈ ms, m.msgType = nlmsgError → errno p.order m.body = some 0 := by
  rw [checkReplies_eq_ok_iff]
  constructor
  · intro h m hm herr
    refine h (m.msgType, m.flags, m.body) (mem_append_right _ ?_) herr
    exact mem_filterMap.mpr ⟨m, hm, keep_of_error herr⟩
  · intro h r hr herr
    rcases mem_append.mp hr with hr | hr
    · have := any_eq_false.mp hkept r hr
      simp [isErrorReply, herr] at this
    · obtain ⟨m, hm, hkeep⟩ := mem_filterMap.mp hr
      rw [keep] at hkeep
      split at hkeep
      · cases hkeep
        exact h m hm herr
      · cases hkeep

variable {sock sock' : NlSocket}

theorem attributed_panicked_iff (hover : overruns p.order d = true)
    (hrcv : ∀ m, m.msgType = nlmsgError →
      (m ∈ received p.order sock.queue sock'.queue ↔ m ∈ messages p.order d)) :
    Attributed p sock (.panicked, sock') ↔ Decides p.order sock.seq d := by
  rw [Decides, if_pos hover]
  constructor
  · intro h m hm hans
    cases hcode : errno p.order m.body with
    | none => exact .inl rfl
    | some code =>
      refine .inr (congrArg some ?_)
      by_contra hne
      obtain ⟨e, he⟩ := h.err m ((hrcv m hans.1).mpr hm) hans code hcode hne
      cases he
  · intro h
    refine ⟨nofun, fun m hm hans code hcode hne => ?_⟩
    rcases h m ((hrcv m hans.1).mp hm) hans with hnone | hzero
    · rw [hnone] at hcode
      cases hcode
    · rw [hzero, Option.some.injEq] at hcode
      exact absurd hcode.symm hne

theorem attributed_returned_iff {r : Result Unit} (hover : overruns p.order d = false)
    (hchk : r = .ok () ↔
      ∀ m ∈ messages p.order d, m.msgType = nlmsgError → errno p.order m.body = some 0)
    (hrcv : ∀ m, m.msgType = nlmsgError →
      (m ∈ received p.order sock.queue sock'.queue ↔ m ∈ messages p.order d)) :
    Attributed p sock (.returned r, sock') ↔ Decides p.order sock.seq d := by
  rw [Decides, hover]
  constructor
  · intro h
    by_cases hall : ∀ m ∈ messages p.order d, m.msgType = nlmsgError → errno p.order m.body = some 0
    · obtain ⟨m, hm, hans, -⟩ := h.ok (congrArg Outcome.returned (hchk.mpr hall))
      exact ⟨m, (hrcv m hans.1).mp hm, hans.1, .inl hans.2⟩
    · push Not at hall
      obtain ⟨m, hm, herr, hcode⟩ := hall
      exact ⟨m, hm, herr, .inr hcode⟩
  · rintro ⟨m, hm, herr, hdec⟩
    refine ⟨fun hok => ?_, fun m' hm' hans code hcode hne => ?_⟩
    · have hall := hchk.mp (Outcome.returned.inj hok)
      rcases hdec with hseq | hcode
      · exact ⟨m, (hrcv m herr).mpr hm, ⟨herr, hseq⟩, hall m hm herr⟩
      · exact absurd (hall m hm herr) hcode
    · cases r with
      | error e => exact ⟨e, rfl⟩
      | ok u =>
        have hzero := hchk.mp rfl m' ((hrcv m' hans.1).mp hm') hans.1
        rw [hcode, Option.some.injEq] at hzero
        exact absurd hzero hne

/-- **Attribution of acknowledgements.** An answer of `request` is the answer to its own message
exactly if the datagram at which the exchange ends, if there is one, decides it: an empty datagram,
an own message that is no error, or the acknowledgement of another request does not. -/
theorem request_attributed_iff (p : Platform) (sock : NlSocket) (msgType flags : UInt16)
    (payload : List UInt8) (sent : Except String Unit) :
    Attributed p sock (request p sock msgType flags payload sent) ↔
      (sent = .ok () → ∀ d, firstEnding p.order sock.seq sock.queue = some d →
        Decides p.order sock.seq d) := by
  cases sent with
  | error e =>
    have hran : request p sock msgType flags payload (.error e) =
        (.returned (.error (sendError e)), { sock with seq := sock.seq + 1 }) := rfl
    rw [hran]
    refine ⟨fun _ => nofun, fun _ => ⟨nofun, fun m hm => ?_⟩⟩
    rw [received_self] at hm
    cases hm
  | ok u =>
    have hran : request p sock msgType flags payload (.ok ()) =
        ((recvUntilDone p.order sock.seq sock.queue []).1.andThen (checkReplies p),
          ⟨sock.seq + 1, (recvUntilDone p.order sock.seq sock.queue []).2⟩) := rfl
    rw [hran]
    cases hfirst : firstEnding p.order sock.seq sock.queue with
    | none =>
      obtain ⟨houtcome, hreceived⟩ := recvUntilDone_of_firstEnding_eq_none any_nil hfirst
      refine ⟨fun _ _ => nofun, fun _ => ⟨fun hok => ?_, fun m hm hanswers => ?_⟩⟩
      · cases hloop : (recvUntilDone p.order sock.seq sock.queue []).1 with
        | returned r =>
          cases r with
          | ok replies => exact absurd hloop (houtcome replies)
          | error e => simp [hloop, Outcome.andThen] at hok
        | panicked | blocked => simp [hloop, Outcome.andThen] at hok
      · exact absurd hanswers.1 (hreceived m hm)
    | some d =>
      obtain ⟨kept, hkept, houtcome, hreceived⟩ :=
        recvUntilDone_of_firstEnding_eq_some any_nil hfirst
      have hdecides : Attributed p sock ((recvUntilDone p.order sock.seq sock.queue []).1.andThen
          (checkReplies p), ⟨sock.seq + 1, (recvUntilDone p.order sock.seq sock.queue []).2⟩) ↔
          Decides p.order sock.seq d := by
        rw [houtcome]
        cases hover : overruns p.order d with
        | true => exact attributed_panicked_iff hover hreceived
        | false => exact attributed_returned_iff hover (checkReplies_append_keep hkept) hreceived
      rw [hdecides]
      exact ⟨fun h _ d' hd' => Option.some.inj hd' ▸ h, fun h => h rfl d rfl⟩

def littleEndian : Platform := ⟨.little, fun _ => "os error"⟩

/-- The acknowledgement of request 4, late, and then the answer to request 5: no such device. -/
def lateAck : NlSocket :=
  ⟨5, [.ok (((Message.mk nlmsgError 0 4 [0, 0, 0, 0]).frame 0).bytes .little),
    .ok (((Message.mk nlmsgError 0 5 [0xED, 0xFF, 0xFF, 0xFF]).frame 0).bytes .little)]⟩

/-- Request 5 takes the acknowledgement of request 4 for its own, and the error stays unread. -/
theorem request_takes_late_ack :
    (request littleEndian lateAck 24 0 [] (.ok ())).1 = .returned (.ok ()) ∧
      received .little lateAck.queue (request littleEndian lateAck 24 0 [] (.ok ())).2.queue =
        [⟨nlmsgError, 0, 4, [0, 0, 0, 0]⟩] ∧
      ¬Attributed littleEndian lateAck (request littleEndian lateAck 24 0 [] (.ok ())) := by
  have hok : (request littleEndian lateAck 24 0 [] (.ok ())).1 = .returned (.ok ()) := by
    decide +kernel
  have hreceived : received .little lateAck.queue
      (request littleEndian lateAck 24 0 [] (.ok ())).2.queue =
      [⟨nlmsgError, 0, 4, [0, 0, 0, 0]⟩] := by
    decide +kernel
  refine ⟨hok, hreceived, fun h => ?_⟩
  obtain ⟨m, hm, hanswers, -⟩ := h.ok hok
  have hm' : m = ⟨nlmsgError, 0, 4, [0, 0, 0, 0]⟩ := mem_singleton.mp (hreceived ▸ hm)
  rw [hm'] at hanswers
  exact absurd hanswers.2 (by decide)

end MitosNetwork.Netlink
