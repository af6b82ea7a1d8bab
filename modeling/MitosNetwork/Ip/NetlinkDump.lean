import MitosNetwork.Ip.Netlink

/-!
# Dumps over netlink

The kernel answers a dump with a stream of messages, cut into datagrams wherever it likes, and other
traffic may arrive in between. `dump_eq_bodies` says that `NlSocket::dump` returns the bodies of its
own messages in order for every way of cutting the stream, as long as none of them is an
`NLMSG_ERROR`: an error ends the dump with the datagram that brings it.
-/

namespace MitosNetwork.Netlink

open Wire List

variable {p : Platform} {order : ByteOrder} {seq : UInt32}

variable {f : Frame} {frames parts : List Frame}

/-! ## Walking over frames -/

/-- The length field holds the length, and the next message is aligned. -/
structure Frame.WellFormed (f : Frame) : Prop where
  len_lt : f.len < 4294967296
  pad : f.len + f.pad.length = align f.len

theorem Frame.length_bytes (f : Frame) : (f.bytes order).length = f.len + f.pad.length := by
  simp only [Frame.bytes, length_append, ByteOrder.length_bytes, Frame.len, nlmsgHdrlen]
  omega

theorem Frame.hdrlen_le_len (f : Frame) : nlmsgHdrlen ≤ f.len := Nat.le_add_right _ _

theorem Frame.bytes_append (f : Frame) (rest : List UInt8) :
    f.bytes order ++ rest = order.bytes 4 f.len ++ (order.bytes 2 f.message.msgType.toNat ++
      (order.bytes 2 f.message.flags.toNat ++ (order.bytes 4 f.message.seq.toNat ++
        (order.bytes 4 f.pid.toNat ++ (f.message.body ++ (f.pad ++ rest)))))) := by
  simp [Frame.bytes]

theorem len_frame (h : f.WellFormed) (rest : List UInt8) :
    order.nat ((f.bytes order ++ rest).extract 0 4) = f.len := by
  have hlen : f.len < 256 ^ 4 := h.len_lt
  have hfld : (f.bytes order ++ rest).extract 0 4 = order.bytes 4 f.len := by
    rw [f.bytes_append]
    exact extract_field (a := []) rfl (by simp)
  rw [hfld, ByteOrder.nat_bytes, Nat.mod_eq_of_lt hlen]

theorem readMessage_frame (f : Frame) (rest : List UInt8) :
    readMessage order (f.bytes order ++ rest) f.len = f.message := by
  have htype : (f.bytes order ++ rest).extract 4 6 = order.bytes 2 f.message.msgType.toNat := by
    rw [f.bytes_append]
    exact extract_field (by simp) (by simp)
  have hflags : (f.bytes order ++ rest).extract 6 8 = order.bytes 2 f.message.flags.toNat := by
    rw [f.bytes_append, ← append_assoc]
    exact extract_field (by simp) (by simp)
  have hseq : (f.bytes order ++ rest).extract 8 12 = order.bytes 4 f.message.seq.toNat := by
    rw [f.bytes_append, ← append_assoc, ← append_assoc]
    exact extract_field (by simp) (by simp)
  have hbody : (f.bytes order ++ rest).extract nlmsgHdrlen f.len = f.message.body := by
    rw [f.bytes_append, ← append_assoc, ← append_assoc, ← append_assoc, ← append_assoc]
    exact extract_field (by simp [nlmsgHdrlen]) (by simp [Frame.len])
  rw [readMessage, htype, hflags, hseq, hbody, ByteOrder.ofNat_nat_bytes_two,
    ByteOrder.ofNat_nat_bytes_two, ByteOrder.ofNat_nat_bytes_four]

theorem walk_frame (h : f.WellFormed) (n : ℕ) (rest : List UInt8) :
    walk order (n + 1) (f.bytes order ++ rest) =
      (f.message :: (walk order n rest).1, (walk order n rest).2) := by
  have hlen : (f.bytes order ++ rest).length = align f.len + rest.length := by
    rw [length_append, f.length_bytes, h.pad]
  have hle : f.len ≤ align f.len := h.pad ▸ Nat.le_add_right _ _
  have hhdr := f.hdrlen_le_len
  have hdrop : (f.bytes order ++ rest).drop (align f.len) = rest :=
    drop_left' (by rw [f.length_bytes, h.pad])
  rw [walk]
  simp only [len_frame h, hlen]
  rw [if_neg (by omega), if_neg (by omega), hdrop, readMessage_frame]

theorem walk_frames (h : ∀ f ∈ frames, f.WellFormed) {n : ℕ} (hn : frames.length ≤ n) :
    walk order n (frames.flatMap (Frame.bytes order)) = (frames.map Frame.message, false) := by
  induction frames generalizing n with
  | nil =>
    cases n with
    | zero => rfl
    | succ n =>
      rw [walk]
      exact if_pos (.inl (Nat.zero_lt_succ 15))
  | cons f frames ih =>
    obtain ⟨n, rfl⟩ : ∃ k, n = k + 1 := ⟨n - 1, by rw [length_cons] at hn; omega⟩
    rw [flatMap_cons, walk_frame (h f mem_cons_self),
      ih (fun g hg => h g (mem_cons_of_mem _ hg)) (Nat.le_of_succ_le_succ hn), map_cons]

theorem length_le_length_flatMap (order : ByteOrder) (frames : List Frame) :
    frames.length ≤ (frames.flatMap (Frame.bytes order)).length := by
  induction frames with
  | nil => exact le_rfl
  | cons f frames ih =>
    have hhdr : 16 ≤ f.len := f.hdrlen_le_len
    rw [flatMap_cons, length_append, f.length_bytes, length_cons]
    omega

theorem messages_frames (h : ∀ f ∈ frames, f.WellFormed) :
    messages order (frames.flatMap (Frame.bytes order)) = frames.map Frame.message := by
  rw [messages, walk_frames h (length_le_length_flatMap order frames)]

theorem overruns_frames (h : ∀ f ∈ frames, f.WellFormed) :
    overruns order (frames.flatMap (Frame.bytes order)) = false := by
  rw [overruns, walk_frames h (length_le_length_flatMap order frames)]

/-! ## Dumps -/

/-- A part of the answer to request `seq`. -/
structure Frame.Part (seq : UInt32) (f : Frame) : Prop where
  seq : f.message.seq = seq
  multi : f.message.isMulti = true
  aligned : 4 ∣ f.len
  notDone : f.message.msgType ≠ nlmsgDone
  notError : f.message.msgType ≠ nlmsgError

structure Frame.Foreign (seq : UInt32) (f : Frame) : Prop where
  seq : f.message.seq ≠ seq
  notError : f.message.msgType ≠ nlmsgError

def Frame.kept (seq : UInt32) (f : Frame) : Option Reply := keep seq f.message

theorem Frame.Part.kept (h : f.Part seq) :
    f.kept seq = some (f.message.msgType, f.message.flags, f.message.body) :=
  if_pos ⟨.inl h.seq, h.notDone⟩

theorem Frame.Foreign.kept (h : f.Foreign seq) : f.kept seq = none :=
  if_neg fun hkeep => hkeep.1.elim h.seq h.notError

theorem Frame.Part.ends (h : f.Part seq) : f.message.ends seq = false := by
  simp [Message.ends, h.notError, h.notDone, h.multi]

theorem Frame.Foreign.ends (h : f.Foreign seq) : f.message.ends seq = false := by
  simp [Message.ends, h.notError, h.seq]

theorem endsExchange_frames (order : ByteOrder) (seq : UInt32) (h : ∀ f ∈ frames, f.WellFormed)
    (hne : frames ≠ []) :
    endsExchange order seq (frames.flatMap (Frame.bytes order)) =
      frames.any fun f => f.message.ends seq := by
  have hlen := length_le_length_flatMap order frames
  have hpos := length_pos_iff.mpr hne
  have hby : (frames.flatMap (Frame.bytes order)).isEmpty = false := by
    rw [isEmpty_eq_false_iff, ← length_pos_iff]
    omega
  rw [endsExchange, overruns_frames h, messages_frames h, hby]
  simp [Function.comp_def]

theorem split_before_or_after {α : Type} {d rest parts trailing : List α} {done : α}
    (h : d ++ rest = parts ++ done :: trailing) :
    (∃ parts', parts = d ++ parts' ∧ rest = parts' ++ done :: trailing) ∨
      ∃ tail, d = parts ++ done :: tail ∧ trailing = tail ++ rest := by
  rcases append_eq_append_iff.mp h with ⟨parts', hpts, hrest⟩ | ⟨tail, hd, htail⟩
  · exact .inl ⟨parts', hpts, hrest⟩
  · rcases append_eq_cons_iff.mp htail.symm with ⟨rfl, hrest⟩ | ⟨tail', rfl, htr⟩
    · exact .inl ⟨[], by simpa using hd.symm, hrest⟩
    · exact .inr ⟨tail', hd, htr⟩

theorem filterMap_kept_foreign (h : ∀ f ∈ frames, f.Foreign seq) :
    frames.filterMap (Frame.kept seq) = [] :=
  filterMap_eq_nil_iff.mpr fun f hf => (h f hf).kept

/-- **The receive loop on a dump.** However the stream is cut, the loop keeps the parts before the
`NLMSG_DONE`, in order. -/
theorem recvUntilDone_datagrams {trailing : List Frame} {done : Frame}
    {datagrams : List (List Frame)} (later : List Recv) {out : List Reply}
    (hsp : datagrams.flatten = parts ++ done :: trailing)
    (hfrs : ∀ d ∈ datagrams, ∀ f ∈ d, f.WellFormed) (hne : ∀ d ∈ datagrams, d ≠ [])
    (hsize : ∀ d ∈ datagrams, (d.flatMap (Frame.bytes order)).length ≤ bufferSize)
    (hpts : ∀ f ∈ parts, f.Part seq ∨ f.Foreign seq)
    (hdone : done.message.seq = seq ∧ done.message.msgType = nlmsgDone)
    (htr : ∀ f ∈ trailing, f.Foreign seq) (hout : out.any isErrorReply = false) :
    (recvUntilDone order seq
      (datagrams.map (fun d => .ok (d.flatMap (Frame.bytes order))) ++ later) out).1 =
      .returned (.ok (out ++ parts.filterMap (Frame.kept seq))) := by
  induction datagrams generalizing parts out with
  | nil => simp at hsp
  | cons d datagrams ih =>
    have hd := hfrs d mem_cons_self
    have hcut : (d.flatMap (Frame.bytes order)).take bufferSize = d.flatMap (Frame.bytes order) :=
      take_of_length_le (hsize d mem_cons_self)
    have hends := endsExchange_frames order seq hd (hne d mem_cons_self)
    have hkept : (messages order ((d.flatMap (Frame.bytes order)).take bufferSize)).filterMap
        (keep seq) = d.filterMap (Frame.kept seq) := by
      rw [hcut, messages_frames hd, filterMap_map]
      rfl
    rw [← hcut] at hends
    rcases split_before_or_after hsp with ⟨parts', rfl, hrest⟩ | ⟨tail, rfl, rfl⟩
    · have hopen : (d.any fun f => f.message.ends seq) = false := by
        refine any_eq_false.mpr fun f hf => ?_
        rcases hpts f (mem_append_left _ hf) with hf | hf
        · simp [hf.ends]
        · simp [hf.ends]
      obtain ⟨out', rfl, hout', hrun⟩ := recvUntilDone_cons_of_not_ends
        (datagrams.map (fun d => .ok (d.flatMap (Frame.bytes order))) ++ later) hout
        (hends.trans hopen)
      rw [map_cons, cons_append, hrun, ih hrest
        (fun e he => hfrs e (mem_cons_of_mem _ he))
        (fun e he => hne e (mem_cons_of_mem _ he))
        (fun e he => hsize e (mem_cons_of_mem _ he))
        (fun f hf => hpts f (mem_append_right _ hf)) hout', hkept, filterMap_append,
        append_assoc]
    · have hcl : ((parts ++ done :: tail).any fun f => f.message.ends seq) = true := by
        refine any_eq_true.mpr ⟨done, by simp, ?_⟩
        simp [Message.ends, hdone.1, hdone.2]
      have hdoneKept : done.kept seq = none := if_neg fun h => h.2 hdone.2
      rw [map_cons, cons_append, recvUntilDone_cons_of_ends _ hout (hends.trans hcl), hkept,
        hcut, overruns_frames hd, filterMap_append, filterMap_cons_none hdoneKept,
        filterMap_kept_foreign fun f hf => htr f (mem_append_left _ hf), append_nil]
      rfl

theorem collectReplies_eq {replies : List Reply}
    (h : ∀ r ∈ replies, r.1 ≠ nlmsgError ∧ r.1 ≠ nlmsgDone) (out : List (List UInt8)) :
    collectReplies p replies out = .ok (out ++ replies.map fun r => r.2.2) := by
  induction replies generalizing out with
  | nil => simp [collectReplies]
  | cons r replies ih =>
    obtain ⟨herr, hdone⟩ := h r mem_cons_self
    rw [collectReplies, if_neg herr, if_pos hdone,
      ih (fun r' hr' => h r' (mem_cons_of_mem _ hr'))]
    simp

theorem filterMap_kept_parts (h : ∀ f ∈ parts, f.Part seq ∨ f.Foreign seq) :
    parts.filterMap (Frame.kept seq) =
      (parts.filter fun f => f.message.seq = seq).map fun f =>
        (f.message.msgType, f.message.flags, f.message.body) := by
  induction parts with
  | nil => rfl
  | cons f parts ih =>
    have hrest := ih fun g hg => h g (mem_cons_of_mem _ hg)
    rcases h f mem_cons_self with hf | hf
    · rw [filterMap_cons_some hf.kept, hrest, filter_cons_of_pos (by simp [hf.seq]), map_cons]
    · rw [filterMap_cons_none hf.kept, hrest, filter_cons_of_neg (by simp [hf.seq])]

/-- **Dumps do not depend on datagram boundaries.** The stream is the parts of the answer, mixed
with messages for others, up to an own `NLMSG_DONE`. However it is cut into datagrams that fit the
buffer, the dump returns the bodies of the parts in order. -/
theorem dump_eq_bodies (p : Platform) (sock : NlSocket) (msgType : UInt16) (payload : List UInt8)
    (parts trailing : List Frame) (done : Frame) (datagrams : List (List Frame)) (later : List Recv)
    (hframes : ∀ f ∈ parts ++ done :: trailing, f.WellFormed)
    (hparts : ∀ f ∈ parts, f.Part sock.seq ∨ f.Foreign sock.seq)
    (hdone : done.message.seq = sock.seq ∧ done.message.msgType = nlmsgDone)
    (htrailing : ∀ f ∈ trailing, f.Foreign sock.seq)
    (hsplit : datagrams.flatten = parts ++ done :: trailing) (hne : ∀ d ∈ datagrams, d ≠ [])
    (hsize : ∀ d ∈ datagrams, (d.flatMap (Frame.bytes p.order)).length ≤ bufferSize)
    (hqueue : sock.queue =
      datagrams.map (fun d => .ok (d.flatMap (Frame.bytes p.order))) ++ later) :
    (dump p sock msgType payload (.ok ())).1 = .returned (.ok
      ((parts.filter fun f => f.message.seq = sock.seq).map fun f => f.message.body)) := by
  have hrun := recvUntilDone_datagrams later hsplit (fun d hd f hf => hframes f
    (hsplit ▸ mem_flatten_of_mem hd hf)) hne hsize hparts hdone htrailing any_nil
  rw [← hqueue, nil_append, filterMap_kept_parts hparts] at hrun
  have hran : (dump p sock msgType payload (.ok ())).1 =
      (recvUntilDone p.order sock.seq sock.queue []).1.andThen (collectReplies p · []) := rfl
  rw [hran, hrun]
  refine congrArg Outcome.returned ((collectReplies_eq ?_ []).trans ?_)
  · intro r hr
    obtain ⟨f, hf, rfl⟩ := mem_map.mp hr
    rw [mem_filter] at hf
    rcases hparts f hf.1 with hpart | hforeign
    · exact ⟨hpart.notError, hpart.notDone⟩
    · exact absurd (of_decide_eq_true hf.2) hforeign.seq
  · rw [map_map]
    rfl

/-! ## A dump of two links -/

def linkFrame (n : UInt8) : Frame := (Message.mk 16 nlmFMulti 7 [n, 0, 0, 0]).frame 0

def doneFrame : Frame := (Message.mk nlmsgDone nlmFMulti 7 [0, 0, 0, 0]).frame 0

def lateFrame : Frame := (Message.mk 16 0 6 [9]).frame 0

def dumpSocket (datagrams : List (List Frame)) : NlSocket :=
  ⟨7, datagrams.map (fun d => .ok (d.flatMap (Frame.bytes littleEndian.order))) ++ []⟩

instance (f : Frame) : Decidable f.WellFormed :=
  decidable_of_iff (f.len < 4294967296 ∧ f.len + f.pad.length = align f.len)
    ⟨fun h => ⟨h.1, h.2⟩, fun h => ⟨h.1, h.2⟩⟩

theorem dump_eq_bodies_links :
    (dump littleEndian
      (dumpSocket [[linkFrame 1, lateFrame], [linkFrame 2], [doneFrame, lateFrame]])
      18 [] (.ok ())).1 = .returned (.ok [[1, 0, 0, 0], [2, 0, 0, 0]]) := by
  have hpart : ∀ n, (linkFrame n).Part 7 := fun n =>
    ⟨rfl, (by decide : (nlmFMulti &&& nlmFMulti != 0) = true), ⟨5, rfl⟩,
      (by decide : (16 : UInt16) ≠ nlmsgDone), (by decide : (16 : UInt16) ≠ nlmsgError)⟩
  have hforeign : lateFrame.Foreign 7 := ⟨by decide, by decide⟩
  refine dump_eq_bodies littleEndian (dumpSocket _) 18 [] [linkFrame 1, lateFrame, linkFrame 2]
    [lateFrame] doneFrame [[linkFrame 1, lateFrame], [linkFrame 2], [doneFrame, lateFrame]] []
    (by decide +kernel) ?_ ⟨rfl, rfl⟩ ?_ rfl (by simp) (by decide +kernel) rfl
  · intro f hf
    simp only [mem_cons, not_mem_nil, or_false] at hf
    rcases hf with rfl | rfl | rfl
    · exact .inl (hpart 1)
    · exact .inr hforeign
    · exact .inl (hpart 2)
  · intro f hf
    rw [mem_singleton.mp hf]
    exact hforeign

def errorFrame : Frame := (Message.mk nlmsgError nlmFMulti 7 [0, 0, 0, 0]).frame 0

/-- With an own error message in the stream the dump depends on the cut, and the body of the error
is never returned. -/
theorem dump_cut_at_error :
    (dump littleEndian (dumpSocket [[errorFrame, linkFrame 1, doneFrame]]) 18 [] (.ok ())).1 =
        .returned (.ok [[1, 0, 0, 0]]) ∧
      (dump littleEndian (dumpSocket [[errorFrame], [linkFrame 1, doneFrame]]) 18 [] (.ok ())).1 =
        .returned (.ok []) ∧
      ([errorFrame, linkFrame 1].filter fun f => f.message.seq = 7).map (fun f => f.message.body) =
        [[0, 0, 0, 0], [1, 0, 0, 0]] := by
  decide +kernel

end MitosNetwork.Netlink
