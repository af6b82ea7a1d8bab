import MitosNetwork.Common.Checked
import MitosNetwork.Common.Utf8
import MitosNetwork.Ip.NetlinkDump
import MitosNetwork.Ip.Route
import Mathlib.Data.List.DropRight

/-!
# Slices of a netlink datagram

The readers of `src/ip/netlink.rs` again, with every slice and every index checked: the two message
loops, `parse_attrs` and the three parsers of a message body. The lengths that a datagram declares
are compared with what is left before anything is sliced, with one exception: the message loops step
over the padding of a message without a check. So they panic exactly at a datagram whose last
message is there in full and its padding is not (`walk_panics_iff`). `parse_attrs`, which meets the
same situation at the end of every chain, stops there instead.
-/

namespace MitosNetwork.Netlink.Slices

open Wire Checked List Option

variable (order : ByteOrder) {i n : ℕ} {rest next d buf : List UInt8}

/-! ## Message loops -/

/-- `from_ne_bytes(bs[i..j].try_into().unwrap())` for a type of `w` bytes. -/
def wordAt (w : ℕ) (bs : List UInt8) (i j : ℕ) : Checked ℕ := do
  let bytes ← array w (← slice bs i j)
  pure (order.nat bytes)

/-- A turn of the message loops. `fields` reads what a loop wants to know of the header besides the
length. -/
def messageTurn {α : Type} (order : ByteOrder) (fields : List UInt8 → Checked α)
    (rest : List UInt8) : Checked (Turn (α × List UInt8) (List UInt8)) :=
  if rest.length < nlmsgHdrlen then pure .stop
  else do
    let len ← wordAt order 4 rest 0 4
    let header ← fields rest
    if len < nlmsgHdrlen ∨ rest.length < len then pure .stop
    else
      let body ← slice rest nlmsgHdrlen len
      let next ← sliceFrom rest (align len)
      pure (.next (header, body) next)

/-- The header as `recv_until_done` reads it: type, flags and sequence number. -/
def replyFields (rest : List UInt8) : Checked (UInt16 × UInt16 × UInt32) := do
  let msgType ← wordAt order 2 rest 4 6
  let flags ← wordAt order 2 rest 6 8
  let seq ← wordAt order 4 rest 8 12
  pure (UInt16.ofNat msgType, UInt16.ofNat flags, UInt32.ofNat seq)

/-- The header as `recv_multicast` reads it: the type. -/
def multicastFields (rest : List UInt8) : Checked UInt16 := do
  let msgType ← wordAt order 2 rest 4 6
  pure (UInt16.ofNat msgType)

/-! ## Attributes -/

/-- `u16::from_ne_bytes([buf[i], buf[i + 1]])`. -/
def halfwordAt (buf : List UInt8) (i : ℕ) : Checked ℕ := do
  let b₀ ← index buf i
  let b₁ ← index buf (i + 1)
  pure (order.nat [b₀, b₁])

/-- A turn of the loop of `parse_attrs`. -/
def attrTurn (buf : List UInt8) : Checked (Turn (UInt16 × List UInt8) (List UInt8)) :=
  if buf.length < 4 then pure .stop
  else do
    let rtaLen ← halfwordAt order buf 0
    let rtaType ← halfwordAt order buf 2
    if rtaLen < 4 ∨ buf.length < rtaLen then pure .stop
    else
      let payload ← slice buf 4 rtaLen
      if buf.length ≤ align rtaLen then pure (.last (UInt16.ofNat rtaType, payload))
      else
        let rest ← sliceFrom buf (align rtaLen)
        pure (.next (UInt16.ofNat rtaType, payload) rest)

/-- `parse_attrs`. -/
def parseAttrs (buf : List UInt8) : Checked (Table UInt16 (List UInt8)) := do
  let attrs ← run (attrTurn order) buf
  pure (attrs.foldl (fun out a => out.insert a.1 a.2) ∅)

/-! ## Message bodies -/

def iflaAddress : UInt16 := 1
def iflaIfname : UInt16 := 3
def iflaMtu : UInt16 := 4
def iflaOperstate : UInt16 := 16
def iflaLinkinfo : UInt16 := 18
def iflaInfoKind : UInt16 := 1
def ifaAddress : UInt16 := 1
def ifaLocal : UInt16 := 2
def ifaLabel : UInt16 := 3

def nulText (b : List UInt8) : String :=
  String.ofList ((Utf8.lossy b).toList.rdropWhile (· = '\x00'))

/-- The word in the first four bytes of an attribute, if it has so many. -/
def attrWord : Option (List UInt8) → Checked (Option UInt32)
  | none => pure none
  | some b =>
    if b.length < 4 then pure none
    else do
      let n ← wordAt order 4 b 0 4
      pure (some (UInt32.ofNat n))

structure LinkInfo where
  index : Int32
  flags : UInt32
  name : String
  mtu : UInt32
  hwaddr : Option (List UInt8)
  operstate : Option UInt8
  kind : Option String

/-- The hardware address of a link, its first six bytes. -/
def hwaddr : Option (List UInt8) → Checked (Option (List UInt8))
  | none => pure none
  | some b =>
    if b.length < 6 then pure none
    else do
      let mac ← array 6 (← slice b 0 6)
      pure (some mac)

/-- The kind of a link, an attribute inside of an attribute. -/
def linkKind : Option (List UInt8) → Checked (Option String)
  | none => pure none
  | some linkinfo => do
    let nested ← parseAttrs order linkinfo
    pure ((nested.lookup iflaInfoKind).map nulText)

variable (body : List UInt8)

/-- `parse_link`. -/
def parseLink : Checked (Option LinkInfo) :=
  if body.length < 16 then pure none
  else do
    let index ← wordAt order 4 body 4 8
    let flags ← wordAt order 4 body 8 12
    let attrs ← parseAttrs order (← sliceFrom body 16)
    let mtu ← attrWord order (attrs.lookup iflaMtu)
    let mac ← hwaddr (attrs.lookup iflaAddress)
    let kind ← linkKind order (attrs.lookup iflaLinkinfo)
    pure (some
      { index := (UInt32.ofNat index).toInt32
        flags := UInt32.ofNat flags
        name := ((attrs.lookup iflaIfname).map nulText).getD ""
        mtu := mtu.getD 0
        hwaddr := mac
        operstate := (attrs.lookup iflaOperstate).bind List.head?
        kind := kind })

structure AddrInfo where
  index : Int32
  family : UInt8
  prefixlen : UInt8
  address : List UInt8
  label : Option String

/-- `parse_addr`. -/
def parseAddr : Checked (Option AddrInfo) :=
  if body.length < 8 then pure none
  else do
    let family ← index body 0
    let prefixlen ← index body 1
    let index ← wordAt order 4 body 4 8
    let attrs ← parseAttrs order (← sliceFrom body 8)
    pure (some
      { index := (UInt32.ofNat index).toInt32
        family := family
        prefixlen := prefixlen
        address := ((attrs.lookup ifaLocal).or (attrs.lookup ifaAddress)).getD []
        label := (attrs.lookup ifaLabel).map nulText })

/-- `parse_route`. -/
def parseRoute : Checked (Option RouteInfo) :=
  if body.length < 12 then pure none
  else do
    let family ← index body 0
    let dstLen ← index body 1
    let table ← index body 4
    let attrs ← parseAttrs order (← sliceFrom body 12)
    let oif ← attrWord order (attrs.lookup rtaOif)
    let priority ← attrWord order (attrs.lookup rtaPriority)
    pure (some
      { family := family
        dstLen := dstLen
        table := table
        dst := attrs.lookup rtaDst
        gateway := attrs.lookup rtaGateway
        oif := oif.map UInt32.toInt32
        priority := priority })

/-! ## The multicast socket -/

/-- `recv_multicast`: one datagram, each message of it given to `f`. -/
def recvMulticast {τ : Type} (order : ByteOrder) (f : UInt16 → List UInt8 → Checked (Option τ)) :
    List Recv → Outcome (List τ) × List Recv
  | [] => (.blocked, [])
  | .error e :: queue => (.returned (.error (.netlink ("recv() failed: " ++ e))), queue)
  | .ok bytes :: queue =>
    let events : Checked (List τ) := do
      let messages ← run (messageTurn order (multicastFields order)) (bytes.take bufferSize)
      let found ← messages.mapM fun m => f m.1 m.2
      pure (found.filterMap id)
    match events with
    | none => (.panicked, queue)
    | some events => (.returned (.ok events), queue)

def rtmNewlink : UInt16 := 16
def rtmDellink : UInt16 := 17
def rtmNewaddr : UInt16 := 20
def rtmDeladdr : UInt16 := 21

/-- `RawEvent` of `src/ip/monitor.rs`. -/
inductive RawEvent where
  | linkNew (name : String)
  | linkDel (name : String)
  | addrNew (index : Int32)
  | addrDel (index : Int32)

/-- What `Monitor::recv` makes of a message. -/
def rawEvent (msgType : UInt16) (body : List UInt8) : Checked (Option RawEvent) :=
  if msgType = rtmNewlink then
    (parseLink order body).map (Option.map fun l => .linkNew l.name)
  else if msgType = rtmDellink then
    (parseLink order body).map (Option.map fun l => .linkDel l.name)
  else if msgType = rtmNewaddr then
    (parseAddr order body).map (Option.map fun a => .addrNew a.index)
  else if msgType = rtmDeladdr then
    (parseAddr order body).map (Option.map fun a => .addrDel a.index)
  else pure none

/-- `Monitor::recv`. -/
def monitorRecv (queue : List Recv) : Outcome (List RawEvent) × List Recv :=
  recvMulticast order (rawEvent order) queue

/-! ## What a turn does -/

variable {α : Type} {order} {fields : List UInt8 → Checked α}

theorem wordAt_of_le {bs : List UInt8} {j w : ℕ} (hij : i ≤ j) (hj : j ≤ bs.length)
    (hw : j - i = w) : wordAt order w bs i j = some (order.nat (bs.extract i j)) := by
  rw [wordAt, slice_of_le hij hj, bind_eq_bind, bind_some, array_extract hj hw]
  rfl

def InHeader (fields : List UInt8 → Checked α) : Prop :=
  ∀ rest : List UInt8, nlmsgHdrlen ≤ rest.length → ∃ a, fields rest = some a

theorem replyFields_eq (order : ByteOrder) (h : nlmsgHdrlen ≤ rest.length) :
    replyFields order rest =
      some (UInt16.ofNat (order.nat (rest.extract 4 6)),
        UInt16.ofNat (order.nat (rest.extract 6 8)),
        UInt32.ofNat (order.nat (rest.extract 8 12))) := by
  have hlen : 16 ≤ rest.length := h
  rw [replyFields, wordAt_of_le (by decide) (by omega) (by decide),
    wordAt_of_le (by decide) (by omega) (by decide),
    wordAt_of_le (by decide) (by omega) (by decide)]
  rfl

theorem inHeader_replyFields : InHeader (replyFields order) :=
  fun _ h => ⟨_, replyFields_eq order h⟩

theorem inHeader_multicastFields : InHeader (multicastFields order) := by
  intro rest h
  have hlen : 16 ≤ rest.length := h
  rw [multicastFields, wordAt_of_le (by decide) (by omega) (by decide)]
  exact ⟨_, rfl⟩

def declared (order : ByteOrder) (rest : List UInt8) : ℕ := order.nat (rest.extract 0 4)

/-- A message at the front, complete up to its padding. -/
def Complete (order : ByteOrder) (rest : List UInt8) : Prop :=
  nlmsgHdrlen ≤ declared order rest ∧ declared order rest ≤ rest.length

instance (rest : List UInt8) : Decidable (Complete order rest) :=
  inferInstanceAs (Decidable (_ ∧ _))

theorem wordAt_declared (h : nlmsgHdrlen ≤ rest.length) :
    wordAt order 4 rest 0 4 = some (declared order rest) :=
  wordAt_of_le (by decide) (le_trans (by decide) h) (by decide)

theorem messageTurn_of_not_complete (hflds : InHeader fields) (h : ¬ Complete order rest) :
    messageTurn order fields rest = some .stop := by
  rw [messageTurn]
  split
  · rfl
  · rename_i hhdr
    have hlen : nlmsgHdrlen ≤ rest.length := Nat.le_of_not_lt hhdr
    have hchk : declared order rest < nlmsgHdrlen ∨ rest.length < declared order rest := by
      unfold Complete at h
      omega
    obtain ⟨a, ha⟩ := hflds rest hlen
    rw [wordAt_declared hlen, ha]
    exact if_pos hchk

theorem Complete.hdrlen_le (h : Complete order rest) : nlmsgHdrlen ≤ rest.length := h.1.trans h.2

theorem messageTurn_of_complete (h : Complete order rest) {a : α} (ha : fields rest = some a) :
    messageTurn order fields rest = (sliceFrom rest (align (declared order rest))).map
      (.next (a, rest.extract nlmsgHdrlen (declared order rest))) := by
  have hlength := h.hdrlen_le
  obtain ⟨hlen, hfull⟩ := h
  rw [messageTurn, if_neg (Nat.not_lt.mpr hlength), wordAt_declared hlength, ha]
  simp only [bind_eq_bind, bind_some]
  rw [if_neg (by omega), slice_of_le hlen hfull]
  cases sliceFrom rest (align (declared order rest)) <;> rfl

/-- The message is there, and its padding is not. -/
def Unpadded (order : ByteOrder) (rest : List UInt8) : Prop :=
  Complete order rest ∧ rest.length < align (declared order rest)

instance (rest : List UInt8) : Decidable (Unpadded order rest) :=
  inferInstanceAs (Decidable (_ ∧ _))

theorem messageTurn_eq_none_iff (hflds : InHeader fields) :
    messageTurn order fields rest = none ↔ Unpadded order rest := by
  by_cases h : Complete order rest
  · obtain ⟨a, ha⟩ := hflds rest h.hdrlen_le
    rw [messageTurn_of_complete h ha, sliceFrom]
    simp [Unpadded, h]
  · simp [messageTurn_of_not_complete hflds h, Unpadded, h]

theorem of_messageTurn_eq_next (hflds : InHeader fields) {m : α × List UInt8}
    (h : messageTurn order fields rest = some (.next m next)) :
    Complete order rest ∧ align (declared order rest) ≤ rest.length ∧
      next = rest.drop (align (declared order rest)) := by
  by_cases hcom : Complete order rest
  · obtain ⟨a, ha⟩ := hflds rest hcom.hdrlen_le
    rw [messageTurn_of_complete hcom ha, map_eq_some_iff] at h
    obtain ⟨tail, htail, hnext⟩ := h
    cases hnext
    unfold sliceFrom at htail
    split at htail
    · rename_i hle
      cases htail
      exact ⟨hcom, hle, rfl⟩
    · cases htail
  · rw [messageTurn_of_not_complete hflds hcom] at h
    cases h

theorem shrinks_messageTurn (hflds : InHeader fields) : Shrinks (messageTurn order fields) := by
  intro rest next m h
  obtain ⟨⟨hlen, -⟩, hle, rfl⟩ := of_messageTurn_eq_next hflds h
  have hal := le_align (declared order rest)
  have hhdr : 16 ≤ declared order rest := hlen
  rw [length_drop]
  omega

/-! ## Where the message loops get -/

def frameAt (order : ByteOrder) (rest : List UInt8) : Frame where
  message := readMessage order rest (declared order rest)
  pid := UInt32.ofNat (order.nat (rest.extract 12 16))
  pad := rest.extract (declared order rest) (align (declared order rest))

theorem frameAt_spec (h : Complete order rest)
    (hpad : align (declared order rest) ≤ rest.length) :
    (frameAt order rest).WellFormed ∧
      rest = (frameAt order rest).bytes order ++ rest.drop (align (declared order rest)) := by
  obtain ⟨hlen, hfull⟩ := h
  have hhdr : 16 ≤ declared order rest := hlen
  have hal := le_align (declared order rest)
  have hbody : (rest.extract nlmsgHdrlen (declared order rest)).length =
      declared order rest - nlmsgHdrlen := Wire.length_extract hfull
  have hfr : (frameAt order rest).len = declared order rest := by
    show nlmsgHdrlen + (rest.extract nlmsgHdrlen (declared order rest)).length = _
    omega
  refine ⟨⟨?_, ?_⟩, ?_⟩
  · have hlt := order.nat_lt (rest.extract 0 4)
    rw [Wire.length_extract (by omega)] at hlt
    rw [hfr]
    exact hlt
  · show (frameAt order rest).len + (rest.extract _ _).length = align (frameAt order rest).len
    rw [hfr, Wire.length_extract hpad]
    omega
  · have hfld : ∀ {i j w : ℕ}, j ≤ 16 → j - i = w → (rest.extract i j).length = w := by
      intro i j w hj hw
      rw [Wire.length_extract (by omega), hw]
    have hlenBytes : order.bytes 4 (declared order rest) = rest.extract 0 4 :=
      order.bytes_nat (hfld (by decide) rfl)
    have hby : (frameAt order rest).bytes order = rest.extract 0 4 ++ (rest.extract 4 6 ++
        (rest.extract 6 8 ++ (rest.extract 8 12 ++ (rest.extract 12 16 ++
          (rest.extract 16 (declared order rest) ++
            rest.extract (declared order rest) (align (declared order rest))))))) := by
      rw [Frame.bytes, hfr]
      simp only [frameAt, readMessage, nlmsgHdrlen]
      rw [order.bytes_ofNat_nat_two (hfld (by decide) rfl),
        order.bytes_ofNat_nat_two (hfld (by decide) rfl),
        order.bytes_ofNat_nat_four (hfld (by decide) rfl),
        order.bytes_ofNat_nat_four (hfld (by decide) rfl), hlenBytes]
    rw [hby]
    simp only [append_assoc]
    rw [extract_append_drop rest hal, extract_append_drop rest hhdr,
      extract_append_drop rest (by decide), extract_append_drop rest (by decide),
      extract_append_drop rest (by decide), extract_append_drop rest (by decide),
      extract_append_drop rest (by decide), drop_zero]

theorem complete_frame {f : Frame} (h : f.WellFormed) (rest : List UInt8) :
    declared order (f.bytes order ++ rest) = f.len ∧ Complete order (f.bytes order ++ rest) ∧
      align f.len ≤ (f.bytes order ++ rest).length ∧
      (f.bytes order ++ rest).drop (align f.len) = rest := by
  have hlen : declared order (f.bytes order ++ rest) = f.len := len_frame h rest
  have hlength : (f.bytes order).length = align f.len := by rw [f.length_bytes, h.pad]
  have hle := le_align f.len
  refine ⟨hlen, ⟨?_, ?_⟩, ?_, drop_left' hlength⟩
  · rw [hlen]
    exact f.hdrlen_le_len
  · rw [length_append]
    omega
  · rw [length_append]
    omega

theorem follows_messageTurn_iff (hflds : InHeader fields) :
    Follows (messageTurn order fields) rest next ↔
      ∃ f : Frame, f.WellFormed ∧ rest = f.bytes order ++ next := by
  constructor
  · rintro ⟨m, hm⟩
    obtain ⟨hcom, hle, rfl⟩ := of_messageTurn_eq_next hflds hm
    exact ⟨frameAt order rest, frameAt_spec hcom hle⟩
  · rintro ⟨f, hf, rfl⟩
    obtain ⟨hlen, hcom, hle, hdrop⟩ := @complete_frame order f hf next
    obtain ⟨a, ha⟩ := hflds _ hcom.hdrlen_le
    have hturn := messageTurn_of_complete hcom ha
    rw [hlen, sliceFrom_of_le hle, hdrop] at hturn
    exact ⟨_, hturn⟩

theorem reaches_messageTurn_iff (hflds : InHeader fields) {last : List UInt8} :
    Relation.ReflTransGen (Follows (messageTurn order fields)) d last ↔
      ∃ frames : List Frame, (∀ f ∈ frames, f.WellFormed) ∧
        d = frames.flatMap (Frame.bytes order) ++ last := by
  constructor
  · intro h
    induction h using Relation.ReflTransGen.head_induction_on with
    | refl => exact ⟨[], forall_mem_nil _, rfl⟩
    | head hstep _ ih =>
      obtain ⟨f, hf, rfl⟩ := (follows_messageTurn_iff hflds).mp hstep
      obtain ⟨frames, hfrs, rfl⟩ := ih
      refine ⟨f :: frames, forall_mem_cons.mpr ⟨hf, hfrs⟩, ?_⟩
      rw [flatMap_cons, append_assoc]
  · rintro ⟨frames, hfrs, rfl⟩
    induction frames with
    | nil => exact .refl
    | cons f frames ih =>
      obtain ⟨hf, hrest⟩ := forall_mem_cons.mp hfrs
      refine (ih hrest).head ((follows_messageTurn_iff hflds).mpr ⟨f, hf, ?_⟩)
      rw [flatMap_cons, append_assoc]

/-- Whole frames, and behind them a message whose padding is cut off. -/
def CutPadding (order : ByteOrder) (d : List UInt8) : Prop :=
  ∃ (frames : List Frame) (last : List UInt8), (∀ f ∈ frames, f.WellFormed) ∧
    d = frames.flatMap (Frame.bytes order) ++ last ∧ Unpadded order last

theorem run_messageTurn_eq_none_iff (hflds : InHeader fields) :
    run (messageTurn order fields) d = none ↔ CutPadding order d := by
  rw [run_eq_none_iff (shrinks_messageTurn hflds)]
  simp only [reaches_messageTurn_iff hflds, messageTurn_eq_none_iff hflds]
  constructor
  · rintro ⟨last, ⟨frames, hfrs, hd⟩, hlast⟩
    exact ⟨frames, last, hfrs, hd, hlast⟩
  · rintro ⟨frames, last, hfrs, hd, hlast⟩
    exact ⟨last, ⟨frames, hfrs, hd⟩, hlast⟩

/-! ## Attributes -/

theorem halfwordAt_of_lt (h : i + 1 < buf.length) :
    halfwordAt order buf i = some (order.nat (buf.extract i (i + 2))) := by
  have hpair : buf.extract i (i + 2) = [buf.getD i 0, buf.getD (i + 1) 0] := by
    rw [extract_eq_take_drop, Nat.add_sub_cancel_left, drop_eq_getElem_cons (by omega),
      drop_eq_getElem_cons (by omega), getD_eq_getElem?_getD, getD_eq_getElem?_getD,
      getElem?_eq_getElem (by omega), getElem?_eq_getElem (by omega)]
    rfl
  rw [halfwordAt, index_of_lt (by omega) 0, index_of_lt h 0, hpair]
  rfl

variable (order)

/-- The length that the attribute at the front declares. -/
def attrLen (buf : List UInt8) : ℕ := order.nat (buf.take 2)

def attrAt (buf : List UInt8) : UInt16 × List UInt8 :=
  (UInt16.ofNat (order.nat (buf.extract 2 4)), buf.extract 4 (attrLen order buf))

theorem attrTurn_eq (buf : List UInt8) :
    attrTurn order buf = some (
      if buf.length < 4 then .stop
      else if attrLen order buf < 4 ∨ buf.length < attrLen order buf then .stop
      else if buf.length ≤ align (attrLen order buf) then .last (attrAt order buf)
      else .next (attrAt order buf) (buf.drop (align (attrLen order buf)))) := by
  rw [attrTurn]
  split
  · rfl
  · have hlen : halfwordAt order buf 0 = some (attrLen order buf) := halfwordAt_of_lt (by omega)
    rw [hlen, halfwordAt_of_lt (by omega)]
    simp only [bind_eq_bind, bind_some]
    split
    · rfl
    · rw [slice_of_le (by omega) (by omega)]
      split
      · rfl
      · rw [sliceFrom_of_le (by omega)]
        rfl

theorem shrinks_attrTurn : Shrinks (attrTurn order) := by
  intro buf rest a h
  rw [attrTurn_eq, Option.some.injEq] at h
  split_ifs at h
  cases h
  have halign := le_align (attrLen order buf)
  rw [length_drop]
  omega

theorem loop_attrTurn (hn : buf.length ≤ n) (out : Table UInt16 (List UInt8)) :
    (loop (attrTurn order) (n + 1) buf).map (List.foldl (fun out a => out.insert a.1 a.2) out) =
      some (parseAttrsUpTo order n buf out) := by
  induction n generalizing buf out with
  | zero =>
    obtain rfl := length_eq_zero_iff.mp (Nat.le_zero.mp hn)
    rfl
  | succ n ih =>
    have hstep : parseAttrsUpTo order (n + 1) buf out =
        if buf.length < 4 then out
        else if attrLen order buf < 4 ∨ buf.length < attrLen order buf then out
        else if buf.length ≤ align (attrLen order buf) then
          out.insert (attrAt order buf).1 (attrAt order buf).2
        else parseAttrsUpTo order n (buf.drop (align (attrLen order buf)))
          (out.insert (attrAt order buf).1 (attrAt order buf).2) := rfl
    rw [loop, attrTurn_eq, hstep]
    split_ifs with hheader hstop hlast
    · rfl
    · rfl
    · rfl
    · have halign := le_align (attrLen order buf)
      have hlen : (buf.drop (align (attrLen order buf))).length ≤ n := by
        rw [length_drop]
        omega
      rw [← ih hlen]
      exact Option.map_map ..

theorem parseAttrs_eq (buf : List UInt8) :
    parseAttrs order buf = some (Netlink.parseAttrs order buf) := by
  rw [Netlink.parseAttrs, ← loop_attrTurn order (Nat.le_refl _), parseAttrs, run]
  cases loop (attrTurn order) (buf.length + 1) buf <;> rfl

/-! ## Message bodies -/

theorem attrWord_eq (b : Option (List UInt8)) :
    attrWord order b = some (b.bind (word32 order)) := by
  cases b with
  | none => rfl
  | some b =>
    rw [attrWord, bind_some, word32]
    by_cases h : 4 ≤ b.length
    · rw [if_neg (Nat.not_lt.mpr h), if_pos h, wordAt_of_le (by decide) h (by decide)]
      rfl
    · rw [if_pos (Nat.lt_of_not_le h), if_neg h]
      rfl

theorem hwaddr_returns (b : Option (List UInt8)) : ∃ mac, hwaddr b = some mac := by
  cases b with
  | none => exact ⟨none, rfl⟩
  | some b =>
    rw [hwaddr]
    split
    · exact ⟨none, rfl⟩
    · rename_i hlen
      rw [slice_of_le (by decide) (Nat.le_of_not_lt hlen), bind_eq_bind,
        bind_some, array_extract (Nat.le_of_not_lt hlen) (by decide)]
      exact ⟨_, rfl⟩

theorem linkKind_returns (b : Option (List UInt8)) : ∃ kind, linkKind order b = some kind := by
  cases b with
  | none => exact ⟨none, rfl⟩
  | some b =>
    rw [linkKind, parseAttrs_eq]
    exact ⟨_, rfl⟩

theorem parseLink_returns : ∃ link, parseLink order body = some link := by
  rw [parseLink]
  split
  · exact ⟨none, rfl⟩
  · rw [wordAt_of_le (by decide) (by omega) (by decide),
      wordAt_of_le (by decide) (by omega) (by decide), sliceFrom_of_le (by omega)]
    simp only [bind_eq_bind, bind_some, parseAttrs_eq, attrWord_eq]
    obtain ⟨mac, hmac⟩ := hwaddr_returns
      ((Netlink.parseAttrs order (body.drop 16)).lookup iflaAddress)
    obtain ⟨kind, hkind⟩ := linkKind_returns order
      ((Netlink.parseAttrs order (body.drop 16)).lookup iflaLinkinfo)
    rw [hmac, hkind]
    exact ⟨_, rfl⟩

theorem parseAddr_returns : ∃ addr, parseAddr order body = some addr := by
  rw [parseAddr]
  split
  · exact ⟨none, rfl⟩
  · rw [index_of_lt (by omega) 0, index_of_lt (by omega) 0,
      wordAt_of_le (by decide) (by omega) (by decide), sliceFrom_of_le (by omega)]
    simp only [parseAttrs_eq]
    exact ⟨_, rfl⟩

theorem parseRoute_eq : parseRoute order body = some (MitosNetwork.parseRoute order body) := by
  rw [parseRoute, MitosNetwork.parseRoute]
  split
  · rfl
  · rw [index_of_lt (by omega) 0, index_of_lt (by omega) 0, index_of_lt (by omega) 0,
      sliceFrom_of_le (by omega)]
    simp only [parseAttrs_eq, attrWord_eq]
    rfl

theorem rawEvent_returns (msgType : UInt16) (body : List UInt8) :
    ∃ event, rawEvent order msgType body = some event := by
  obtain ⟨link, hlink⟩ := parseLink_returns order body
  obtain ⟨addr, haddr⟩ := parseAddr_returns order body
  rw [rawEvent, hlink, haddr]
  split
  · exact ⟨_, rfl⟩
  split
  · exact ⟨_, rfl⟩
  split
  · exact ⟨_, rfl⟩
  split
  · exact ⟨_, rfl⟩
  · exact ⟨_, rfl⟩

/-! ## The whole datagram -/

variable {order}

theorem mapM_returns {α β : Type} {f : α → Checked β} (h : ∀ a, ∃ b, f a = some b) (l : List α) :
    ∃ bs, l.mapM f = some bs := by
  induction l with
  | nil => exact ⟨[], rfl⟩
  | cons a l ih =>
    obtain ⟨b, hb⟩ := h a
    obtain ⟨bs, hbs⟩ := ih
    rw [mapM_cons, hb, hbs]
    exact ⟨b :: bs, rfl⟩

theorem recvMulticast_panicked_iff {τ : Type} {f : UInt16 → List UInt8 → Checked (Option τ)}
    (h : ∀ msgType body, ∃ event, f msgType body = some event) (bytes : List UInt8)
    (queue : List Recv) :
    (recvMulticast order f (.ok bytes :: queue)).1 = .panicked ↔
      CutPadding order (bytes.take bufferSize) := by
  rw [← run_messageTurn_eq_none_iff (@inHeader_multicastFields order), recvMulticast]
  cases run (messageTurn order (multicastFields order)) (bytes.take bufferSize) with
  | none => exact iff_of_true rfl rfl
  | some messages =>
    obtain ⟨events, hevs⟩ := mapM_returns (fun m : UInt16 × List UInt8 => h m.1 m.2) messages
    simp only [bind_eq_bind, bind_some, hevs]
    refine iff_of_false (fun h => ?_) (some_ne_none messages)
    cases h

theorem loop_messageTurn (order : ByteOrder) (hn : rest.length ≤ n) :
    loop (messageTurn order (replyFields order)) (n + 1) rest =
      if (walk order n rest).2 then none
      else some ((walk order n rest).1.map fun m => ((m.msgType, m.flags, m.seq), m.body)) := by
  induction n generalizing rest with
  | zero =>
    obtain rfl := length_eq_zero_iff.mp (Nat.le_zero.mp hn)
    rfl
  | succ n ih =>
    have hwalk : walk order (n + 1) rest =
        if ¬ Complete order rest then ([], false)
        else if rest.length < align (declared order rest) then
          ([readMessage order rest (declared order rest)], true)
        else
          (readMessage order rest (declared order rest) ::
              (walk order n (rest.drop (align (declared order rest)))).1,
            (walk order n (rest.drop (align (declared order rest)))).2) := by
      refine if_congr ?_ rfl rfl
      show _ ∨ declared order rest < _ ∨ rest.length < declared order rest ↔ _
      unfold Complete
      omega
    rw [hwalk]
    by_cases hcom : Complete order rest
    · have hturn := messageTurn_of_complete hcom (replyFields_eq order hcom.hdrlen_le)
      rw [if_neg (not_not.mpr hcom)]
      by_cases hcut : rest.length < align (declared order rest)
      · rw [sliceFrom_of_lt hcut] at hturn
        rw [loop, hturn, if_pos hcut]
        rfl
      · have hpos : 16 ≤ declared order rest := hcom.1
        have hal := le_align (declared order rest)
        have hlen : (rest.drop (align (declared order rest))).length ≤ n := by
          rw [length_drop]
          omega
        rw [sliceFrom_of_le (Nat.le_of_not_lt hcut)] at hturn
        rw [loop_of_next hturn, ih hlen, if_neg hcut]
        cases (walk order n (rest.drop (align (declared order rest)))).2 <;> rfl
    · rw [loop_of_stop (messageTurn_of_not_complete inHeader_replyFields hcom),
        if_pos hcom]
      rfl

/-- **Two models of the walk.** With its slices checked, the loop reads the messages that the
exchanges on the socket are described with, and it slices out of range exactly where they note an
overrun, which is behind a message whose padding is cut off. -/
theorem walk_refined (order : ByteOrder) (d : List UInt8) :
    run (messageTurn order (replyFields order)) d =
      (if overruns order d then none
      else some ((messages order d).map fun m => ((m.msgType, m.flags, m.seq), m.body))) ∧
    (overruns order d = true ↔ CutPadding order d) := by
  have hrun := loop_messageTurn order (Nat.le_refl d.length)
  refine ⟨hrun, ?_⟩
  rw [← run_messageTurn_eq_none_iff inHeader_replyFields, run, hrun]
  show (walk order d.length d).2 = true ↔ _
  split <;> simp [*]

/-- **Walking a datagram.** The message loops of `recv_until_done` and of the multicast socket slice
out of range exactly at a datagram in which a message is complete and its padding is cut off. The
parsers of a message and `parse_attrs` never do, and every turn of every loop shortens what is left.
-/
theorem walk_panics_iff (order : ByteOrder) :
    (∀ d, run (messageTurn order (replyFields order)) d = none ↔ CutPadding order d) ∧
    (∀ bytes queue, (monitorRecv order (.ok bytes :: queue)).1 = .panicked ↔
      CutPadding order (bytes.take bufferSize)) ∧
    (∀ body, parseAttrs order body ≠ none ∧ parseLink order body ≠ none ∧
      parseAddr order body ≠ none ∧ parseRoute order body ≠ none) ∧
    Shrinks (messageTurn order (replyFields order)) ∧
    Shrinks (messageTurn order (multicastFields order)) ∧ Shrinks (attrTurn order) := by
  refine ⟨fun d => run_messageTurn_eq_none_iff inHeader_replyFields,
    recvMulticast_panicked_iff (rawEvent_returns order), fun body => ?_,
    shrinks_messageTurn inHeader_replyFields, shrinks_messageTurn inHeader_multicastFields,
    shrinks_attrTurn order⟩
  obtain ⟨link, hlink⟩ := parseLink_returns order body
  obtain ⟨addr, haddr⟩ := parseAddr_returns order body
  rw [parseAttrs_eq, hlink, haddr, parseRoute_eq]
  exact ⟨some_ne_none _, some_ne_none _, some_ne_none _, some_ne_none _⟩

/-- A message of 17 bytes alone in its datagram. -/
def unpadded : List UInt8 := [17, 0, 0, 0, 16, 0, 0, 0, 7, 0, 0, 0, 0, 0, 0, 0, 1]

/-- Both message loops slice out of range behind it. -/
theorem walk_panics_unpadded :
    run (messageTurn .little (replyFields .little)) unpadded = none ∧
      (monitorRecv .little [.ok unpadded]).1 = .panicked := by
  refine ⟨by decide, ?_⟩
  rfl

end MitosNetwork.Netlink.Slices
