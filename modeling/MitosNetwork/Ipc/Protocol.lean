import MitosNetwork.Common.Wire
import MitosNetwork.Ipc.Messages
import Mathlib.Data.List.Forall2

/-!
# Framing of messages

`src/ipc/protocol.rs`: a message is its JSON behind a 4-byte length. Both sides check the length
against the same limit, the reader before it allocates the buffer for the body. What is JSON is left
open: a `Json` is any way of writing the messages of a type, and `Json.RoundTrips` says that what it
writes it reads back.
-/

namespace MitosNetwork.Protocol

open Wire List ByteOrder

variable {bodies : List (List UInt8)} {bytes stream body : List UInt8} {n : ℕ}

/-- `serde_json` for the messages of a type. -/
structure Json (α : Type) where
  toVec : α → Except String (List UInt8)
  fromSlice : List UInt8 → Except String α

def Json.RoundTrips {α : Type} (json : Json α) : Prop :=
  ∀ value bytes, json.toVec value = .ok bytes → json.fromSlice bytes = .ok value

def maxMessageLen : ℕ := 1024 * 1024

variable {α : Type} (json : Json α)

/-! ## Writing -/

def frame (bytes : List UInt8) : List UInt8 := little.bytes 4 bytes.length ++ bytes

/-- `write_message` to a stream that holds these bytes already. -/
def writeMessage (stream : List UInt8) (value : α) : Result (List UInt8) :=
  match json.toVec value with
  | .error e => .error (.parse e)
  | .ok bytes =>
    if maxMessageLen < bytes.length then .error (.other "outgoing IPC message too large")
    else .ok (stream ++ frame bytes)

def writeAll (stream : List UInt8) : List α → Result (List UInt8)
  | [] => .ok stream
  | value :: values => do
    let stream ← writeMessage json stream value
    writeAll stream values

/-! ## Reading -/

/-- What becomes of a read: the result, the bytes that are left, and the size of the buffer that was
allocated for the body, if one was. -/
structure ReadResult (α : Type) where
  result : Result α
  rest : List UInt8
  allocated : Option ℕ

/-- `read_exact`: the bytes and what is left. A stream that ends too early is used up. -/
def readExact (n : ℕ) (stream : List UInt8) : Result (List UInt8) × List UInt8 :=
  if n ≤ stream.length then (.ok (stream.take n), stream.drop n)
  else (.error (.io "failed to fill whole buffer"), [])

/-- `read_message`. -/
def readMessage (stream : List UInt8) : ReadResult α :=
  match readExact 4 stream with
  | (.error e, rest) => ⟨.error e, rest, none⟩
  | (.ok lenBuf, rest) =>
    let len := little.nat lenBuf
    if maxMessageLen < len then
      ⟨.error (.other ("incoming IPC message too large (" ++ toString len ++ " bytes)")), rest,
        none⟩
    else
      match readExact len rest with
      | (.error e, rest) => ⟨.error e, rest, some len⟩
      | (.ok buf, rest) =>
        match json.fromSlice buf with
        | .error e => ⟨.error (.parse e), rest, some len⟩
        | .ok value => ⟨.ok value, rest, some len⟩

/-- Read a number of messages, each where the last read stopped. -/
def readMany : ℕ → List UInt8 → List (Result α) × List UInt8
  | 0, stream => ([], stream)
  | n + 1, stream =>
    let first := readMessage json stream
    let others := readMany n first.rest
    (first.result :: others.1, others.2)

/-! ## What is written -/

theorem length_frame (bytes : List UInt8) : (frame bytes).length = 4 + bytes.length := by
  rw [frame, length_append, length_bytes]

def Framed (value : α) (bytes : List UInt8) : Prop :=
  json.toVec value = .ok bytes ∧ bytes.length ≤ maxMessageLen

variable {values : List α}

theorem writeAll_eq (h : List.Forall₂ (Framed json) values bodies) (stream : List UInt8) :
    writeAll json stream values = .ok (stream ++ bodies.flatMap frame) := by
  induction h generalizing stream with
  | nil => rw [writeAll, flatMap_nil, append_nil]
  | @cons value body values bodies hfrd _ ih =>
    have hwrite : writeMessage json stream value = .ok (stream ++ frame body) := by
      rw [writeMessage, hfrd.1]
      exact if_neg (not_lt.mpr hfrd.2)
    rw [writeAll, hwrite, flatMap_cons, ← append_assoc]
    exact ih (stream ++ frame body)

variable {value : α}

/-! ## What is read -/

theorem readExact_append (h : bytes.length = n) (rest : List UInt8) :
    readExact n (bytes ++ rest) = (.ok bytes, rest) := by
  rw [readExact, if_pos (by rw [length_append]; omega), take_left' h, drop_left' h]

theorem readExact_of_short (h : stream.length < n) :
    readExact n stream = (.error (.io "failed to fill whole buffer"), []) := by
  rw [readExact, if_neg (by omega)]

theorem nat_lengthBytes (h : bytes.length ≤ maxMessageLen) :
    little.nat (little.bytes 4 bytes.length) = bytes.length := by
  rw [nat_bytes]
  refine Nat.mod_eq_of_lt (h.trans_lt ?_)
  decide

theorem readMessage_frame (hjson : json.RoundTrips) (h : Framed json value body)
    (rest : List UInt8) :
    readMessage json (frame body ++ rest) = ⟨.ok value, rest, some body.length⟩ := by
  rw [frame, append_assoc, readMessage, readExact_append (length_bytes ..)]
  dsimp only
  rw [nat_lengthBytes h.2, if_neg (not_lt.mpr h.2), readExact_append rfl]
  dsimp only
  rw [hjson value body h.1]

theorem readMessage_of_cut (hbody : body.length ≤ maxMessageLen) (hcut : stream <+: frame body)
    (hsh : stream.length < (frame body).length) :
    ∃ e, (readMessage json stream).result = .error e := by
  obtain ⟨tail, htail⟩ := hcut
  by_cases hlen : stream.length < 4
  · rw [readMessage, readExact_of_short hlen]
    exact ⟨_, rfl⟩
  · -- The length is there, the body is not.
    obtain ⟨part, rfl⟩ : ∃ part, stream = little.bytes 4 body.length ++ part := by
      refine ⟨stream.drop 4, ?_⟩
      have htake : stream.take 4 = little.bytes 4 body.length := by
        have hfr := congrArg (List.take 4) htail
        rwa [take_append_of_le_length (by omega), frame] at hfr
      rw [← htake, take_append_drop]
    rw [length_frame, length_append, length_bytes] at hsh
    have hpart : part.length < body.length := by omega
    rw [readMessage, readExact_append (length_bytes ..)]
    dsimp only
    rw [nat_lengthBytes hbody, if_neg (not_lt.mpr hbody), readExact_of_short hpart]
    exact ⟨_, rfl⟩

theorem allocated_le (stream : List UInt8) :
    ∀ n ∈ (readMessage json stream).allocated, n ≤ maxMessageLen := by
  intro n hn
  unfold readMessage at hn
  split at hn
  · cases hn
  · dsimp only at hn
    split at hn
    · cases hn
    · rename_i hlen
      split at hn
      · cases hn
        exact not_lt.mp hlen
      · split at hn <;>
        · cases hn
          exact not_lt.mp hlen

theorem length_rest_readMessage_lt (h : (readMessage json stream).result = .ok value) :
    (readMessage json stream).rest.length < stream.length := by
  by_cases hlen : 4 ≤ stream.length
  · have hread : readExact 4 stream = (.ok (stream.take 4), stream.drop 4) := if_pos hlen
    have hdrop : (stream.drop 4).length < stream.length := by
      rw [length_drop]
      omega
    refine lt_of_le_of_lt ?_ hdrop
    unfold readMessage
    rw [hread]
    dsimp only
    split
    · exact le_refl _
    · unfold readExact
      split <;> rename_i hex <;> split at hex <;> cases hex
      · exact Nat.zero_le _
      · split <;> exact (drop_sublist ..).length_le
  · rw [readMessage, readExact_of_short (by omega)] at h
    cases h

theorem readMany_frames (hjson : json.RoundTrips) (h : List.Forall₂ (Framed json) values bodies)
    (rest : List UInt8) :
    readMany json values.length (bodies.flatMap frame ++ rest) = (values.map .ok, rest) := by
  induction h with
  | nil => rfl
  | @cons value body values bodies hfrd _ ih =>
    rw [length_cons, flatMap_cons, append_assoc, readMany, readMessage_frame json hjson hfrd]
    rw [ih]
    rfl

theorem readMany_of_cut (hjson : json.RoundTrips) (h : List.Forall₂ (Framed json) values bodies)
    {cut : List UInt8} (hcut : cut <+: bodies.flatMap frame) (hne : cut ≠ bodies.flatMap frame) :
    ∃ k, k < values.length ∧ ((bodies.take k).flatMap frame).length ≤ cut.length ∧
      cut.length < ((bodies.take (k + 1)).flatMap frame).length ∧
      ∃ e rest, readMany json (k + 1) cut = ((values.take k).map .ok ++ [.error e], rest) := by
  induction h generalizing cut with
  | nil => exact absurd (prefix_nil.mp hcut) hne
  | @cons value body values bodies hfrd _ ih =>
    by_cases hsh : cut.length < (frame body).length
    · -- The first message is cut off.
      have hprefix : cut <+: frame body := prefix_of_prefix_length_le hcut (prefix_append ..) hsh.le
      obtain ⟨e, he⟩ := readMessage_of_cut json hfrd.2 hprefix hsh
      refine ⟨0, Nat.succ_pos _, Nat.zero_le _, ?_, e, (readMessage json cut).rest, ?_⟩
      · rwa [take_succ_cons, take_zero, flatMap_singleton]
      · rw [readMany, he]
        rfl
    · -- It is there, and the rest is a cut of the others.
      obtain ⟨part, rfl⟩ : ∃ part, cut = frame body ++ part := by
        obtain ⟨part, hpart⟩ := prefix_of_prefix_length_le (prefix_append ..) hcut
          (not_lt.mp hsh)
        exact ⟨part, hpart.symm⟩
      have hpart : part <+: bodies.flatMap frame := (prefix_append_right_inj _).mp hcut
      have hpartNe : part ≠ bodies.flatMap frame := fun heq => hne (congrArg (frame body ++ ·) heq)
      obtain ⟨k, hk, hle, hlt, e, rest, hread⟩ := ih hpart hpartNe
      refine ⟨k + 1, Nat.succ_lt_succ hk, ?_, ?_, e, rest, ?_⟩
      · rw [take_succ_cons, flatMap_cons, length_append, length_append]
        omega
      · rw [take_succ_cons, flatMap_cons, length_append, length_append]
        omega
      · rw [readMany, readMessage_frame json hjson hfrd]
        rw [hread]
        rfl

/-- **Framing.** Messages whose JSON keeps to the limit are all written. Reading gives them back in
order and takes exactly what was written, whatever follows. A stream that is cut off anywhere gives
the messages that are wholly there, and the next read is an error. And no read allocates a buffer
above the limit, whatever the bytes are. -/
theorem messages_round_trip (hjson : json.RoundTrips) (values : List α)
    (h : ∀ value ∈ values, ∃ bytes, json.toVec value = .ok bytes ∧ bytes.length ≤ maxMessageLen) :
    (∃ stream, writeAll json [] values = .ok stream ∧
      (∀ tail, readMany json values.length (stream ++ tail) = (values.map .ok, tail)) ∧
      ∀ cut, cut <+: stream → cut ≠ stream →
        ∃ k whole more, k < values.length ∧ writeAll json [] (values.take k) = .ok whole ∧
          writeAll json [] (values.take (k + 1)) = .ok more ∧
          whole.length ≤ cut.length ∧ cut.length < more.length ∧
          ∃ e rest, readMany json (k + 1) cut = ((values.take k).map .ok ++ [.error e], rest)) ∧
      ∀ stream, ∀ n ∈ (readMessage json stream).allocated, n ≤ maxMessageLen := by
  refine ⟨?_, allocated_le json⟩
  obtain ⟨bodies, hbodies⟩ : ∃ bodies, List.Forall₂ (Framed json) values bodies := by
    induction values with
    | nil => exact ⟨[], .nil⟩
    | cons value values ih =>
      rw [forall_mem_cons] at h
      obtain ⟨body, hbody⟩ := h.1
      obtain ⟨bodies, hbodies⟩ := ih h.2
      exact ⟨body :: bodies, .cons hbody hbodies⟩
  have hwrite : ∀ k, writeAll json [] (values.take k) = .ok ((bodies.take k).flatMap frame) :=
    fun k => writeAll_eq json (forall₂_take k hbodies) []
  refine ⟨bodies.flatMap frame, writeAll_eq json hbodies [],
    fun tail => readMany_frames json hjson hbodies tail, fun cut hcut hne => ?_⟩
  obtain ⟨k, hk, hle, hlt, hread⟩ := readMany_of_cut json hjson hbodies hcut hne
  exact ⟨k, _, _, hk, hwrite k, hwrite (k + 1), hle, hlt, hread⟩

def jsonBytes (text : String) : List UInt8 := text.toUTF8.data.toList

/-- The JSON of two requests. -/
def twoRequests : Json Request where
  toVec
    | .getState => .ok (jsonBytes "\"GetState\"")
    | .reload => .ok (jsonBytes "\"Reload\"")
    | _ => .error "another request"
  fromSlice bytes :=
    if bytes = jsonBytes "\"GetState\"" then .ok .getState
    else if bytes = jsonBytes "\"Reload\"" then .ok .reload
    else .error "another text"

theorem messages_round_trip_requests :
    ∃ stream, writeAll twoRequests [] [.getState, .reload] = .ok stream ∧
      stream = [10, 0, 0, 0] ++ jsonBytes "\"GetState\"" ++ [8, 0, 0, 0] ++ jsonBytes "\"Reload\"" ∧
      readMany twoRequests 2 (stream ++ [7]) = ([.ok .getState, .ok .reload], [7]) := by
  have hjson : twoRequests.RoundTrips := by
    intro request bytes hbytes
    have hne : jsonBytes "\"Reload\"" ≠ jsonBytes "\"GetState\"" := by decide +kernel
    cases request <;> cases hbytes <;> simp [twoRequests, hne]
  have hlengths : ∀ request ∈ [.getState, .reload],
      ∃ bytes, twoRequests.toVec request = .ok bytes ∧ bytes.length ≤ maxMessageLen := by
    simp only [forall_mem_cons]
    exact ⟨⟨_, rfl, by decide +kernel⟩, ⟨_, rfl, by decide +kernel⟩, forall_mem_nil _⟩
  obtain ⟨⟨stream, hstream, hread, -⟩, -⟩ :=
    messages_round_trip twoRequests hjson [.getState, .reload] hlengths
  have hwritten : writeAll twoRequests [] [.getState, .reload] = .ok ([10, 0, 0, 0] ++
      jsonBytes "\"GetState\"" ++ [8, 0, 0, 0] ++ jsonBytes "\"Reload\"") := by
    decide +kernel
  exact ⟨stream, hstream, Except.ok.inj (hstream.symm.trans hwritten), hread [7]⟩

end MitosNetwork.Protocol
