import MitosNetwork.Common.Table
import MitosNetwork.Ip.Netlink

/-!
# Netlink attributes

`AttrBuilder` and `parse_attrs` of `src/ip/netlink.rs`. An attribute is a 16-bit length, a type and
a payload, padded with zeros to a multiple of four bytes; the length does not count the padding. A
nested attribute has a chain of attributes as its payload.

`attrs_round_trip` says what comes back: a chain is read as the table of its last payloads of each
type, and a tree whose siblings have distinct types is read back level by level.
-/

namespace MitosNetwork.Netlink

open Wire List ByteOrder

variable {order : ByteOrder}

/-! ## Building -/

/-- The bytes that `push_raw` appends. The length is `rta_len as u16`. -/
def attrBytes (order : ByteOrder) (rtaType : UInt16) (payload : List UInt8) : List UInt8 :=
  order.bytes 2 (4 + payload.length) ++ (order.bytes 2 rtaType.toNat ++ (payload ++
    replicate (align (4 + payload.length) - (4 + payload.length)) 0))

structure AttrBuilder where
  buf : List UInt8

namespace AttrBuilder

def new : AttrBuilder := ⟨[]⟩

variable (order) (b : AttrBuilder) (rtaType : UInt16)

/-- `push_raw`. -/
def pushRaw (payload : List UInt8) : AttrBuilder := ⟨b.buf ++ attrBytes order rtaType payload⟩

def u8 (v : UInt8) : AttrBuilder := b.pushRaw order rtaType [v]

def u16 (v : UInt16) : AttrBuilder := b.pushRaw order rtaType (order.bytes 2 v.toNat)

def u32 (v : UInt32) : AttrBuilder := b.pushRaw order rtaType (order.bytes 4 v.toNat)

def bytes (v : List UInt8) : AttrBuilder := b.pushRaw order rtaType v

def nested (inner : AttrBuilder) : AttrBuilder := b.pushRaw order rtaType inner.buf

def intoBytes : List UInt8 := b.buf

end AttrBuilder

/-! ## Parsing -/

/-- The loop of `parse_attrs` on the unread bytes. Every turn takes at least four of them. -/
def parseAttrsUpTo (order : ByteOrder) :
    ℕ → List UInt8 → Table UInt16 (List UInt8) → Table UInt16 (List UInt8)
  | 0, _, out => out
  | n + 1, buf, out =>
    let rtaLen := order.nat (buf.take 2)
    let rtaType := UInt16.ofNat (order.nat (buf.extract 2 4))
    if buf.length < 4 then out
    else if rtaLen < 4 ∨ buf.length < rtaLen then out
    else if buf.length ≤ align rtaLen then out.insert rtaType (buf.extract 4 rtaLen)
    else
      parseAttrsUpTo order n (buf.drop (align rtaLen)) (out.insert rtaType (buf.extract 4 rtaLen))

/-- `parse_attrs`. -/
def parseAttrs (order : ByteOrder) (buf : List UInt8) : Table UInt16 (List UInt8) :=
  parseAttrsUpTo order buf.length buf ∅

/-! ## One attribute -/

theorem le_align (n : ℕ) : n ≤ align n := by
  unfold align
  omega

theorem align_mod_four (n : ℕ) : align n % 4 = 0 := by
  unfold align
  omega

theorem length_attrBytes (rtaType : UInt16) (payload : List UInt8) :
    (attrBytes order rtaType payload).length = align (4 + payload.length) := by
  have hle := le_align (4 + payload.length)
  simp only [attrBytes, length_append, length_bytes, length_replicate]
  omega

theorem four_le_length_attrBytes (order : ByteOrder) (rtaType : UInt16) (payload : List UInt8) :
    4 ≤ (attrBytes order rtaType payload).length := by
  have hle := le_align (4 + payload.length)
  rw [length_attrBytes]
  omega

theorem header_attrBytes (order : ByteOrder) (rtaType : UInt16) (payload rest : List UInt8) :
    order.nat ((attrBytes order rtaType payload ++ rest).take 2) = (4 + payload.length) % 65536 ∧
      UInt16.ofNat (order.nat ((attrBytes order rtaType payload ++ rest).extract 2 4)) = rtaType ∧
      (attrBytes order rtaType payload ++ rest).drop 4 = payload ++
        (replicate (align (4 + payload.length) - (4 + payload.length)) 0 ++ rest) := by
  have hbuf : attrBytes order rtaType payload ++ rest = order.bytes 2 (4 + payload.length) ++
      (order.bytes 2 rtaType.toNat ++
        (payload ++ (replicate (align (4 + payload.length) - (4 + payload.length)) 0 ++
          rest))) := by
    simp only [attrBytes, append_assoc]
  refine ⟨?_, ?_, ?_⟩
  · rw [hbuf, take_left' (length_bytes order 2 _), nat_bytes]
    rfl
  · rw [hbuf, extract_field (length_bytes order 2 _) (length_bytes order 2 _), ofNat_nat_bytes_two]
  · rw [hbuf, ← append_assoc]
    exact drop_left' (by simp)

theorem parseAttrsUpTo_attrBytes {payload : List UInt8} (h : payload.length ≤ 65531)
    (rtaType : UInt16) (n : ℕ) (rest : List UInt8) (out : Table UInt16 (List UInt8)) :
    parseAttrsUpTo order (n + 1) (attrBytes order rtaType payload ++ rest) out =
      parseAttrsUpTo order n rest (out.insert rtaType payload) := by
  obtain ⟨hlen, htype, htail⟩ := header_attrBytes order rtaType payload rest
  rw [Nat.mod_eq_of_lt (by omega)] at hlen
  have hpayload : (attrBytes order rtaType payload ++ rest).extract 4 (4 + payload.length) =
      payload := by
    rw [extract_eq_take_drop, htail, Nat.add_sub_cancel_left, take_left]
  have hlength : (attrBytes order rtaType payload ++ rest).length =
      align (4 + payload.length) + rest.length := by
    rw [length_append, length_attrBytes]
  have hdrop : (attrBytes order rtaType payload ++ rest).drop (align (4 + payload.length)) = rest :=
    drop_left' (length_attrBytes rtaType payload)
  have hle := le_align (4 + payload.length)
  simp only [parseAttrsUpTo, hlen, htype, hpayload, hlength, hdrop]
  rw [if_neg (by omega), if_neg (by omega)]
  split
  · -- nothing is left, and the loop would stop there as well
    obtain rfl : rest = [] := length_eq_zero_iff.mp (by omega)
    cases n with
    | zero | succ n => rfl
  · rfl

/-! ## Trees of attributes -/

inductive Attr where
  | bytes (rtaType : UInt16) (v : List UInt8)
  | u8 (rtaType : UInt16) (v : UInt8)
  | u16 (rtaType : UInt16) (v : UInt16)
  | u32 (rtaType : UInt16) (v : UInt32)
  | nested (rtaType : UInt16) (children : List Attr)

def Attr.rtaType : Attr → UInt16
  | .bytes t _ | .u8 t _ | .u16 t _ | .u32 t _ | .nested t _ => t

/-- `nul_str`: a string with the NUL that ends it. -/
def Attr.nulStr (rtaType : UInt16) (v : String) : Attr :=
  .bytes rtaType (v.toUTF8.data.toList ++ [0])

mutual

def Attr.push (order : ByteOrder) (b : AttrBuilder) : Attr → AttrBuilder
  | .bytes t v => b.bytes order t v
  | .u8 t v => b.u8 order t v
  | .u16 t v => b.u16 order t v
  | .u32 t v => b.u32 order t v
  | .nested t children => b.nested order t (pushAll order .new children)

/-- Append a chain, one attribute after another. -/
def pushAll (order : ByteOrder) (b : AttrBuilder) : List Attr → AttrBuilder
  | [] => b
  | a :: as => pushAll order (a.push order b) as

end

def chainBytes (order : ByteOrder) (attrs : List Attr) : List UInt8 :=
  (pushAll order .new attrs).intoBytes

def Attr.payload (order : ByteOrder) : Attr → List UInt8
  | .bytes _ v => v
  | .u8 _ v => [v]
  | .u16 _ v => order.bytes 2 v.toNat
  | .u32 _ v => order.bytes 4 v.toNat
  | .nested _ children => chainBytes order children

theorem Attr.buf_push (b : AttrBuilder) (a : Attr) :
    (a.push order b).buf = b.buf ++ attrBytes order a.rtaType (a.payload order) := by
  cases a <;> rfl

theorem buf_pushAll (b : AttrBuilder) (attrs : List Attr) :
    (pushAll order b attrs).buf =
      b.buf ++ attrs.flatMap fun a => attrBytes order a.rtaType (a.payload order) := by
  induction attrs generalizing b with
  | nil => simp [pushAll]
  | cons a attrs ih =>
    rw [pushAll, ih, Attr.buf_push, flatMap_cons, append_assoc]

variable (attrs : List Attr)

theorem chainBytes_eq :
    chainBytes order attrs =
      attrs.flatMap fun a => attrBytes order a.rtaType (a.payload order) :=
  buf_pushAll .new attrs

theorem length_chainBytes :
    (chainBytes order attrs).length =
      (attrs.map fun a => align (4 + (a.payload order).length)).sum := by
  rw [chainBytes_eq, length_flatMap]
  simp only [length_attrBytes]

theorem length_chainBytes_mod_four : (chainBytes order attrs).length % 4 = 0 := by
  rw [length_chainBytes]
  induction attrs with
  | nil => rfl
  | cons a attrs ih =>
    have hal := align_mod_four (4 + (a.payload order).length)
    rw [map_cons, sum_cons]
    omega

/-! ## Reading a chain -/

variable {attrs : List Attr}

theorem parseAttrsUpTo_chain (h : ∀ a ∈ attrs, (a.payload order).length ≤ 65531) (n : ℕ)
    (rest : List UInt8) (out : Table UInt16 (List UInt8)) :
    parseAttrsUpTo order (attrs.length + n)
        ((attrs.flatMap fun a => attrBytes order a.rtaType (a.payload order)) ++ rest) out =
      parseAttrsUpTo order n rest
        (attrs.foldl (fun out a => out.insert a.rtaType (a.payload order)) out) := by
  induction attrs generalizing out with
  | nil => rw [length_nil, Nat.zero_add, flatMap_nil, nil_append, foldl_nil]
  | cons a attrs ih =>
    obtain ⟨ha, hattrs⟩ := forall_mem_cons.mp h
    rw [length_cons, Nat.add_right_comm, flatMap_cons, append_assoc,
      parseAttrsUpTo_attrBytes ha, ih hattrs, foldl_cons]

theorem parseAttrsUpTo_nil (n : ℕ) (out : Table UInt16 (List UInt8)) :
    parseAttrsUpTo order n [] out = out := by
  cases n with
  | zero | succ n => rfl

def lastOf (rtaType : UInt16) (attrs : List Attr) : Option Attr :=
  attrs.reverse.find? fun a => a.rtaType = rtaType

theorem lookup_foldl_insert (out : Table UInt16 (List UInt8)) (t : UInt16) :
    (attrs.foldl (fun out a => out.insert a.rtaType (a.payload order)) out).lookup t =
      ((lastOf t attrs).map (Attr.payload order)).or (out.lookup t) := by
  induction attrs generalizing out with
  | nil => rfl
  | cons a attrs ih =>
    rw [foldl_cons, ih, Table.lookup_insert_eq, lastOf, lastOf, reverse_cons, find?_append]
    cases attrs.reverse.find? fun a => a.rtaType = t with
    | some last => simp
    | none =>
      by_cases ha : t = a.rtaType
      · simp [ha]
      · simp [ha, Ne.symm ha]

theorem length_le_length_chainBytes (order : ByteOrder) (attrs : List Attr) :
    attrs.length ≤ (chainBytes order attrs).length := by
  rw [chainBytes_eq]
  induction attrs with
  | nil => exact Nat.le_refl 0
  | cons a attrs ih =>
    have hfour := four_le_length_attrBytes order a.rtaType (a.payload order)
    rw [flatMap_cons, length_append, length_cons]
    omega

theorem lookup_parseAttrs_chain (h : ∀ a ∈ attrs, (a.payload order).length ≤ 65531) (t : UInt16) :
    (parseAttrs order (chainBytes order attrs)).lookup t =
      (lastOf t attrs).map (Attr.payload order) := by
  obtain ⟨n, hfuel⟩ := Nat.exists_eq_add_of_le (length_le_length_chainBytes order attrs)
  rw [parseAttrs, hfuel, chainBytes_eq, ← append_nil (attrs.flatMap _), parseAttrsUpTo_chain h,
    parseAttrsUpTo_nil, lookup_foldl_insert, AList.lookup_empty, Option.or_none]

/-! ## Reading a tree -/

/-- What is known of a tree in advance: the types and the kinds of its attributes. -/
inductive Shape where
  | bytes (rtaType : UInt16)
  | u8 (rtaType : UInt16)
  | u16 (rtaType : UInt16)
  | u32 (rtaType : UInt16)
  | nested (rtaType : UInt16) (children : List Shape)

def Shape.rtaType : Shape → UInt16
  | .bytes t | .u8 t | .u16 t | .u32 t | .nested t _ => t

mutual

def Shape.decode (order : ByteOrder) (payload : List UInt8) : Shape → Option Attr
  | .bytes t => some (.bytes t payload)
  | .u8 t => if payload.length = 1 then some (.u8 t (payload.getD 0 0)) else none
  | .u16 t =>
    if payload.length = 2 then some (.u16 t (UInt16.ofNat (order.nat payload))) else none
  | .u32 t =>
    if payload.length = 4 then some (.u32 t (UInt32.ofNat (order.nat payload))) else none
  | .nested t children => (decodeAll order (parseAttrs order payload) children).map (.nested t)

def decodeAll (order : ByteOrder) (attrs : Table UInt16 (List UInt8)) :
    List Shape → Option (List Attr)
  | [] => some []
  | s :: ss =>
    ((attrs.lookup s.rtaType).bind fun payload => s.decode order payload).bind fun a =>
      (decodeAll order attrs ss).map fun as => a :: as

end

mutual

def Attr.shape : Attr → Shape
  | .bytes t _ => .bytes t
  | .u8 t _ => .u8 t
  | .u16 t _ => .u16 t
  | .u32 t _ => .u32 t
  | .nested t children => .nested t (shapes children)

def shapes : List Attr → List Shape
  | [] => []
  | a :: as => a.shape :: shapes as

end

mutual

/-- Every payload fits into the length field, and siblings have distinct types. -/
def Attr.Fits (order : ByteOrder) : Attr → Prop
  | .bytes _ v => v.length ≤ 65531
  | .u8 _ _ | .u16 _ _ | .u32 _ _ => True
  | .nested _ children =>
    (chainBytes order children).length ≤ 65531 ∧ (children.map Attr.rtaType).Nodup ∧
      FitAll order children

def FitAll (order : ByteOrder) : List Attr → Prop
  | [] => True
  | a :: as => a.Fits order ∧ FitAll order as

end

theorem Attr.rtaType_shape (a : Attr) : a.shape.rtaType = a.rtaType := by
  cases a <;> rfl

variable {a : Attr}

theorem Attr.Fits.length_payload (h : a.Fits order) : (a.payload order).length ≤ 65531 := by
  cases a with
  | bytes t v => exact h
  | u8 t v | u16 t v | u32 t v => simp [payload]
  | nested t children => exact h.1

theorem FitAll.of_mem (h : FitAll order attrs) (ha : a ∈ attrs) : a.Fits order := by
  induction attrs with
  | nil => cases ha
  | cons b attrs ih =>
    rcases mem_cons.mp ha with rfl | ha
    · exact h.1
    · exact ih h.2 ha

theorem lastOf_eq_of_mem (h : (attrs.map Attr.rtaType).Nodup) (ha : a ∈ attrs) :
    lastOf a.rtaType attrs = some a := by
  cases hlast : lastOf a.rtaType attrs with
  | none =>
    have hnone := find?_eq_none.mp hlast a (mem_reverse.mpr ha)
    simp at hnone
  | some b =>
    have hb := mem_reverse.mp (mem_of_find?_eq_some hlast)
    have htype : b.rtaType = a.rtaType := by simpa using find?_some hlast
    rw [inj_on_of_nodup_map h hb ha htype]

theorem perm_entries_parseAttrs (hdis : (attrs.map Attr.rtaType).Nodup)
    (hfit : ∀ a ∈ attrs, (a.payload order).length ≤ 65531) :
    (parseAttrs order (chainBytes order attrs)).entries.Perm
      (attrs.map fun a => ⟨a.rtaType, a.payload order⟩) := by
  have hkeys : (attrs.map fun a => (⟨a.rtaType, a.payload order⟩ : Σ _, List UInt8)).NodupKeys := by
    rw [List.NodupKeys, keys, map_map]
    exact hdis
  refine lookup_ext (parseAttrs order (chainBytes order attrs)).nodupKeys hkeys ?_
  intro t payload
  have hlk := lookup_parseAttrs_chain hfit t
  rw [AList.lookup] at hlk
  rw [mem_dlookup_iff hkeys, hlk, Option.mem_map, mem_map]
  constructor
  · rintro ⟨a, hlast, rfl⟩
    have htype : a.rtaType = t := by simpa using find?_some hlast
    exact ⟨a, mem_reverse.mp (mem_of_find?_eq_some hlast), by rw [htype]⟩
  · rintro ⟨a, ha, heq⟩
    cases heq
    exact ⟨a, lastOf_eq_of_mem hdis ha, rfl⟩

theorem decodeAll_shapes {table : Table UInt16 (List UInt8)}
    (hlk : ∀ a ∈ attrs, table.lookup a.rtaType = some (a.payload order))
    (hdec : ∀ a ∈ attrs, a.shape.decode order (a.payload order) = some a) :
    decodeAll order table (shapes attrs) = some attrs := by
  induction attrs with
  | nil => rfl
  | cons a attrs ih =>
    obtain ⟨ha, hattrs⟩ := forall_mem_cons.mp hlk
    obtain ⟨hda, hdattrs⟩ := forall_mem_cons.mp hdec
    rw [shapes, decodeAll, Attr.rtaType_shape, ha, Option.bind_some, hda, Option.bind_some,
      ih hattrs hdattrs, Option.map_some]

theorem decodeAll_chain (hdis : (attrs.map Attr.rtaType).Nodup) (hfit : FitAll order attrs)
    (hdec : ∀ a ∈ attrs, a.shape.decode order (a.payload order) = some a) :
    decodeAll order (parseAttrs order (chainBytes order attrs)) (shapes attrs) = some attrs := by
  refine decodeAll_shapes (fun a ha => ?_) hdec
  rw [lookup_parseAttrs_chain (fun b hb => (hfit.of_mem hb).length_payload),
    lastOf_eq_of_mem hdis ha, Option.map_some]

mutual

theorem Attr.decode_payload : (a : Attr) → a.Fits order →
    a.shape.decode order (a.payload order) = some a
  | .bytes t v, _ | .u8 t v, _ => rfl
  | .u16 t v, _ => by
    rw [Attr.shape, Shape.decode, Attr.payload, if_pos (length_bytes order 2 _),
      ofNat_nat_bytes_two]
  | .u32 t v, _ => by
    rw [Attr.shape, Shape.decode, Attr.payload, if_pos (length_bytes order 4 _),
      ofNat_nat_bytes_four]
  | .nested t children, h => by
    have hchildren := decodeAll_chain h.2.1 h.2.2 (decode_children children h.2.2)
    rw [Attr.shape, Shape.decode, Attr.payload, hchildren, Option.map_some]

theorem decode_children : (attrs : List Attr) → FitAll order attrs →
    ∀ a ∈ attrs, a.shape.decode order (a.payload order) = some a
  | [], _ => fun _ ha => nomatch ha
  | a :: as, h => by
    rw [forall_mem_cons]
    exact ⟨a.decode_payload h.1, decode_children as h.2⟩

end

/-- **Attribute chains.** A chain takes a multiple of four bytes. If its payloads fit into the
length field it is read as the table of its last payloads of each type. A tree in which all payloads
fit and siblings have distinct types is read back level by level. -/
theorem attrs_round_trip (order : ByteOrder) (attrs : List Attr) :
    (chainBytes order attrs).length % 4 = 0 ∧
      ((∀ a ∈ attrs, (a.payload order).length ≤ 65531) → ∀ t,
        (parseAttrs order (chainBytes order attrs)).lookup t =
          (lastOf t attrs).map (Attr.payload order)) ∧
      (FitAll order attrs → (attrs.map Attr.rtaType).Nodup →
        decodeAll order (parseAttrs order (chainBytes order attrs)) (shapes attrs) =
          some attrs) := by
  refine ⟨length_chainBytes_mod_four attrs, fun h t => lookup_parseAttrs_chain h t, ?_⟩
  intro hfit hdistinct
  exact decodeAll_chain hdistinct hfit (decode_children attrs hfit)

def linkAttrs : List Attr :=
  [.bytes 3 [119, 103, 48, 48, 0], .u32 4 1500, .nested 18 [.bytes 1 [119, 103, 0], .u8 2 7]]

theorem attrs_round_trip_link :
    (chainBytes .little linkAttrs).length % 4 = 0 ∧
      (parseAttrs .little (chainBytes .little (linkAttrs ++ [.u32 4 9000]))).lookup 4 =
        some [40, 35, 0, 0] ∧
      decodeAll .little (parseAttrs .little (chainBytes .little linkAttrs)) (shapes linkAttrs) =
        some linkAttrs := by
  refine ⟨(attrs_round_trip .little linkAttrs).1, ?_, ?_⟩
  · have hsizes : ∀ a ∈ linkAttrs ++ [.u32 4 9000], (a.payload .little).length ≤ 65531 := by
      decide +kernel
    exact (attrs_round_trip .little (linkAttrs ++ [.u32 4 9000])).2.1 hsizes 4
  · have hfit : FitAll .little linkAttrs := by
      simp only [linkAttrs, FitAll, Attr.Fits]
      decide +kernel
    exact (attrs_round_trip .little linkAttrs).2.2 hfit (by decide)

end MitosNetwork.Netlink
