import MitosNetwork.Dhcp.Grant

/-!
# Several servers on one segment

Runs of one DHCPv4 client of `src/dhcp/client.rs` and any number of servers of
`src/sharing/dhcp_server.rs` that exchange broadcasts in any order. A server answers every REQUEST
it reads, also one that names another server, and the client takes a NAK from anybody; the servers
coexist in exactly the runs in which no REQUEST reaches a server it does not name.
-/

namespace MitosNetwork.Segment

open Dhcp4 DhcpClient DhcpServer DhcpGrant List Machine

variable {a serverId : Ipv4Addr} {bytes : List UInt8} {mac : Mac}

/-! ## Runs of a segment -/

/-- A server with its table and the broadcasts it has not read yet. -/
structure Station where
  config : DhcpServerConfig
  leases : LeaseTable
  inbox : List (List UInt8)

/-- The segment: where the client stands, whether it waits in `recv_from`, the replies it has not
read yet, and the servers. -/
structure State where
  phase : Phase
  waiting : Bool
  inbox : List (List UInt8)
  stations : List Station

/-- What happens next. A party reads any of the packets that wait for it, so packets may overtake
each other, and one that is never read is lost. -/
inductive Event where
  | poll (expired : Bool) (sent : Except String Unit)
  | read (k : ℕ) (now : UInt64)
  | noReply (received : Received)
  | serve (i k : ℕ)

structure Handled where
  config : DhcpServerConfig
  request : List UInt8
  reply : Option (List UInt8)

def delivery (s : State) : Event → Option (Station × List UInt8)
  | .serve i k => s.stations[i]?.bind fun st => st.inbox[k]?.map fun bytes => (st, bytes)
  | _ => none

/-- A broadcast of the client reaches every server. -/
def broadcast (bytes : List UInt8) (stations : List Station) : List Station :=
  stations.map fun st => { st with inbox := st.inbox ++ [bytes] }

variable (c : Client)

def clientStep (s : State) : Event → State
  | .poll expired sent =>
    if s.waiting then s
    else
      match poll c expired sent s.phase with
      | (phase, none) => { s with phase := phase }
      | (phase, some bytes) =>
        { s with phase := phase, waiting := true, stations := broadcast bytes s.stations }
  | .read k now =>
    if s.waiting then
      match s.inbox[k]? with
      | some bytes =>
        { s with
          phase := receive c now (.datagram bytes) s.phase
          waiting := false
          inbox := s.inbox.eraseIdx k }
      | none => s
    else s
  | .noReply (.datagram _) => s
  | .noReply received =>
    if s.waiting then { s with phase := receive c 0 received s.phase, waiting := false } else s
  | .serve _ _ => s

/-- A server's part: it reads a packet and broadcasts its reply, which only the client receives. -/
def serverStep (s : State) (i k : ℕ) (st : Station) (bytes : List UInt8) : State × Handled :=
  let served := serve st.config st.leases (.datagram bytes)
  ({ s with
      stations := s.stations.set i { st with leases := served.1, inbox := st.inbox.eraseIdx k }
      inbox := s.inbox ++ served.2.toList },
    ⟨st.config, bytes, served.2⟩)

def step (s : State) (e : Event) : State × Option Handled :=
  match e, delivery s e with
  | .serve i k, some (st, bytes) =>
    let next := serverStep s i k st bytes
    (next.1, some next.2)
  | e, _ => (clientStep c s e, none)

/-- The segment before anything was sent. -/
def initial (cfgs : List DhcpServerConfig) : State where
  phase := .discovering
  waiting := false
  inbox := []
  stations := cfgs.map fun cfg => ⟨cfg, DhcpServer.initial cfg, []⟩

def after (cfgs : List DhcpServerConfig) (events : List Event) : State :=
  Machine.finalState (step c) (initial cfgs) events

/-- The packets that servers have read over a sequence of events. -/
def handled (cfgs : List DhcpServerConfig) (events : List Event) : List Handled :=
  (Machine.outputs (step c) (initial cfgs) events).filterMap id

def namedServer (bytes : List UInt8) : Option Ipv4Addr :=
  (parse (bytes.take 1500)).bind fun pkt =>
    if pkt.messageType = some msgRequest then serverIdOf pkt else none

/-- A REQUEST that names a server of the segment other than the one with the address `own`. -/
def Misdirected (cfgs : List DhcpServerConfig) (own : Ipv4Addr) (bytes : List UInt8) : Prop :=
  ∃ cfg ∈ cfgs, namedServer bytes = some cfg.serverIp ∧ cfg.serverIp ≠ own

instance (cfgs : List DhcpServerConfig) (own : Ipv4Addr) (bytes : List UInt8) :
    Decidable (Misdirected cfgs own bytes) :=
  inferInstanceAs (Decidable (∃ cfg ∈ cfgs, _ ∧ _))

/-- The server with the chosen identifier would answer the client's REQUEST with what the client
reads as an ACK. -/
def WouldAck (s : State) (offer : Packet) (serverId : Ipv4Addr) : Prop :=
  ∃ st ∈ s.stations, st.config.serverIp = serverId ∧ ∃ reply pkt,
    (serve st.config st.leases
      (.datagram (buildRequest c.xid c.mac offer.yiaddr serverId c.hostname))).2 = some reply ∧
    parse (reply.take 1500) = some pkt ∧ pkt.messageType = some msgAck

/-- What coexistence means for a run: a server stays silent on a REQUEST that names another one, and
a client whose chosen server would send an ACK is not refused. -/
structure Coexist (c : Client) (cfgs : List DhcpServerConfig) (events : List Event) : Prop where
  silent : ∀ h ∈ handled c cfgs events, Misdirected cfgs h.config.serverIp h.request →
    h.reply = none
  acked : ∀ before e rest offer serverId, events = before ++ e :: rest →
    (after c cfgs before).phase = .requesting offer serverId →
    WouldAck c (after c cfgs before) offer serverId →
    (after c cfgs (before ++ [e])).phase ≠ .finished (.error (nakError serverId))

/-- The step does not hand a server a REQUEST that names another one. -/
def WellAddressed (cfgs : List DhcpServerConfig) (s : State) (e : Event) : Prop :=
  ∀ d ∈ delivery s e, ¬Misdirected cfgs d.1.config.serverIp d.2

instance (cfgs : List DhcpServerConfig) (s : State) (e : Event) :
    Decidable (WellAddressed cfgs s e) :=
  inferInstanceAs (Decidable (∀ d ∈ delivery s e, _))

theorem reply_ne_none_of_namedServer (h : namedServer bytes = some a) (cfg : DhcpServerConfig)
    (t : LeaseTable) : (serve cfg t (.datagram bytes)).2 ≠ none := by
  obtain ⟨pkt, hp, hnamed⟩ := Option.bind_eq_some_iff.mp h
  split at hnamed
  · rename_i hkind
    have hne : msgRequest ≠ msgDiscover := by decide
    simp only [serve, hp, hkind, if_neg hne, if_true]
    split <;> exact Option.some_ne_none _
  · cases hnamed

/-! ## Runs in which every REQUEST reaches only the server it names -/

/-- Some server with this identifier has promised the address to the client. -/
def Granted (mac : Mac) (stations : List Station) (serverId a : Ipv4Addr) : Prop :=
  ∃ st ∈ stations, st.config.serverIp = serverId ∧ st.leases.byMac.lookup mac = some a

/-- Every server is still there and no assignment was changed. -/
def Later (stations stations' : List Station) : Prop :=
  ∀ st ∈ stations, ∃ st' ∈ stations', st'.config = st.config ∧ st.leases.Extends st'.leases

variable {stations : List Station}

theorem Granted.later {stations' : List Station} (h : Granted mac stations serverId a)
    (hlater : Later stations stations') : Granted mac stations' serverId a := by
  obtain ⟨st, hst, hid, hlookup⟩ := h
  obtain ⟨st', hst', hcfg, hext⟩ := hlater st hst
  exact ⟨st', hst', by rw [hcfg, hid], hext _ _ hlookup⟩

theorem later_broadcast (bytes : List UInt8) (stations : List Station) :
    Later stations (broadcast bytes stations) :=
  fun _ hst => ⟨_, mem_map_of_mem hst, rfl, .refl _⟩

variable {st : Station}

theorem later_set {i : ℕ} {st' : Station} (hi : stations[i]? = some st)
    (hcfg : st'.config = st.config) (hext : st.leases.Extends st'.leases) :
    Later stations (stations.set i st') := by
  obtain ⟨hlt, hget⟩ := List.getElem?_eq_some_iff.mp hi
  intro x hx
  obtain ⟨j, hj, rfl⟩ := mem_iff_getElem.mp hx
  by_cases hij : i = j
  · subst hij
    rw [hget]
    exact ⟨st', mem_set hlt _, hcfg, hext⟩
  · refine ⟨stations[j], ?_, rfl, .refl _⟩
    exact mem_iff_getElem.mpr ⟨j, by simpa using hj, getElem_set_ne hij _⟩

/-- The client's DISCOVER, or a REQUEST for an address that the named server has promised. -/
def TidyRequest (stations : List Station) (bytes : List UInt8) : Prop :=
  bytes = buildDiscover c.xid c.mac c.hostname ∨
    ∃ serverId a, bytes = buildRequest c.xid c.mac a serverId c.hostname ∧
      Granted c.mac stations serverId a

/-- Not a NAK, and if it is an OFFER a promise of the server it names. -/
def TidyReply (stations : List Station) (bytes : List UInt8) : Prop :=
  ∃ pkt, parse (bytes.take 1500) = some pkt ∧ pkt.messageType ≠ some msgNak ∧
    (pkt.messageType = some msgOffer →
      ∀ serverId ∈ serverIdOf pkt, Granted c.mac stations serverId pkt.yiaddr)

section

variable {c} {stations' : List Station} (hlater : Later stations stations')
include hlater

theorem TidyRequest.later (h : TidyRequest c stations bytes) : TidyRequest c stations' bytes :=
  h.imp_right fun ⟨serverId, a, heq, hgranted⟩ => ⟨serverId, a, heq, hgranted.later hlater⟩

theorem TidyReply.later (h : TidyReply c stations bytes) : TidyReply c stations' bytes := by
  obtain ⟨pkt, hparse, hnak, hoffer⟩ := h
  exact ⟨pkt, hparse, hnak, fun htype id hid => (hoffer htype id hid).later hlater⟩

end

/-- What is under way is tidy, and the server that the client has chosen has promised its address.
-/
structure Tidy (c : Client) (s : State) : Prop where
  requests : ∀ st ∈ s.stations, ∀ bytes ∈ st.inbox, TidyRequest c s.stations bytes
  replies : ∀ bytes ∈ s.inbox, TidyReply c s.stations bytes
  chosen : ∀ offer serverId, s.phase = .requesting offer serverId →
    Granted c.mac s.stations serverId offer.yiaddr

theorem tidy_initial (cfgs : List DhcpServerConfig) : Tidy c (initial cfgs) where
  requests st hst bytes hbytes := by
    obtain ⟨cfg, -, rfl⟩ := mem_map.mp hst
    cases hbytes
  replies bytes hbytes := by cases hbytes
  chosen offer serverId h := by cases h

section Steps

variable {c} {s : State}

theorem step_cases (c : Client) (s : State) (e : Event) :
    (∃ i k st bytes, s.stations[i]? = some st ∧ bytes ∈ st.inbox ∧ delivery s e = some (st, bytes) ∧
      step c s e = ((serverStep s i k st bytes).1, some (serverStep s i k st bytes).2)) ∨
    delivery s e = none ∧ step c s e = (clientStep c s e, none) := by
  cases e with
  | serve i k =>
    cases hd : delivery s (.serve i k) with
    | none =>
      refine .inr ⟨rfl, ?_⟩
      simp only [step, hd]
    | some d =>
      obtain ⟨st, hst, hmap⟩ := Option.bind_eq_some_iff.mp hd
      obtain ⟨bytes, hbytes, rfl⟩ := Option.map_eq_some_iff.mp hmap
      refine .inl ⟨i, k, st, bytes, hst, mem_of_getElem? hbytes, rfl, ?_⟩
      simp only [step, hd]
  | poll expired sent | read k now | noReply received => exact .inr ⟨rfl, rfl⟩

theorem Tidy.of_phase {s' : State} (h : Tidy c s) (hstations : s'.stations = s.stations)
    (hinbox : ∀ bytes ∈ s'.inbox, bytes ∈ s.inbox)
    (hphase : ∀ offer serverId, s'.phase = .requesting offer serverId →
      Granted c.mac s.stations serverId offer.yiaddr) : Tidy c s' where
  requests := by
    rw [hstations]
    exact h.requests
  replies bytes hbytes := by
    rw [hstations]
    exact h.replies bytes (hinbox bytes hbytes)
  chosen := by
    rw [hstations]
    exact hphase

theorem Tidy.outgoing (h : Tidy c s) (hphase : ∀ r, s.phase ≠ .finished r) :
    TidyRequest c s.stations (outgoing c s.phase) := by
  cases hp : s.phase with
  | discovering => exact .inl rfl
  | requesting offer serverId => exact .inr ⟨serverId, offer.yiaddr, rfl, h.chosen offer _ hp⟩
  | finished r => exact absurd hp (hphase r)

theorem Tidy.broadcast (h : Tidy c s) (hphase : ∀ r, s.phase ≠ .finished r) :
    Tidy c { s with
      waiting := true, stations := broadcast (DhcpClient.outgoing c s.phase) s.stations } where
  requests st hst bytes hbytes := by
    obtain ⟨st₀, hst₀, rfl⟩ := mem_map.mp hst
    refine TidyRequest.later (later_broadcast _ s.stations) ?_
    rcases mem_append.mp hbytes with hold | hnew
    · exact h.requests st₀ hst₀ bytes hold
    · rw [mem_singleton.mp hnew]
      exact h.outgoing hphase
  replies bytes hbytes := (h.replies bytes hbytes).later (later_broadcast _ _)
  chosen offer serverId hp := (h.chosen offer serverId hp).later (later_broadcast _ _)

theorem Tidy.receive (h : Tidy c s) (hbytes : bytes ∈ s.inbox) (now : UInt64) :
    (∀ offer serverId, DhcpClient.receive c now (.datagram bytes) s.phase =
      .requesting offer serverId → Granted c.mac s.stations serverId offer.yiaddr) ∧
    ∀ offer serverId, s.phase = .requesting offer serverId →
      DhcpClient.receive c now (.datagram bytes) s.phase ≠
        .finished (.error (nakError serverId)) := by
  obtain ⟨pkt, hparse, hnak, hoffer⟩ := h.replies bytes hbytes
  have hread : DhcpClient.receive c now (.datagram bytes) s.phase =
      handlePacket c now pkt s.phase := by
    cases hp : s.phase <;> simp only [DhcpClient.receive, hparse, handlePacket]
  rw [hread]
  constructor
  · intro offer serverId hreq
    rcases handlePacket_eq_requesting hreq with hold | ⟨rfl, htype, hid⟩
    · exact h.chosen offer serverId hold
    · exact hoffer htype serverId hid
  · intro offer serverId hp hrefused
    rw [hp] at hrefused
    exact hnak (messageType_of_handlePacket_eq_nak hrefused)

theorem Tidy.clientStep (h : Tidy c s) (e : Event) :
    Tidy c (clientStep c s e) ∧ ∀ offer serverId, s.phase = .requesting offer serverId →
      (clientStep c s e).phase ≠ .finished (.error (nakError serverId)) := by
  have hstay : Tidy c s ∧ ∀ offer serverId, s.phase = .requesting offer serverId →
      s.phase ≠ .finished (.error (nakError serverId)) :=
    ⟨h, fun offer serverId hp hf => by rw [hp] at hf; cases hf⟩
  cases e with
  | serve i k => exact hstay
  | poll expired sent =>
    simp only [Segment.clientStep]
    split
    · exact hstay
    · rcases poll_cases c expired sent s.phase with heq | ⟨e, heq, hne⟩ | ⟨heq, hopen⟩
      · rw [heq]
        exact hstay
      · rw [heq]
        refine ⟨h.of_phase rfl (fun _ hb => hb) fun _ _ hp => (nomatch hp), fun _ id _ hf => ?_⟩
        exact hne id (Except.error.inj (Phase.finished.inj hf))
      · rw [heq]
        exact ⟨h.broadcast hopen, hstay.2⟩
  | read k now =>
    simp only [Segment.clientStep]
    split
    · split
      · rename_i bytes hk
        obtain ⟨hgranted, hrefused⟩ := h.receive (mem_of_getElem? hk) now
        exact ⟨h.of_phase rfl (fun _ hb => mem_of_mem_eraseIdx hb) hgranted, hrefused⟩
      · exact hstay
    · exact hstay
  | noReply received =>
    cases received with
    | datagram bytes => exact hstay
    | wouldBlock =>
      have hsame : DhcpClient.receive c 0 .wouldBlock s.phase = s.phase := by
        cases s.phase <;> rfl
      simp only [Segment.clientStep, hsame]
      split
      · exact ⟨h.of_phase rfl (fun _ hb => hb) h.chosen, hstay.2⟩
      · exact hstay
    | failed message =>
      simp only [Segment.clientStep]
      split
      · refine ⟨h.of_phase rfl (fun _ hb => hb) fun offer serverId hp => ?_,
          fun offer serverId hp hf => ?_⟩
        · cases hs : s.phase <;> rw [hs] at hp <;> cases hp
        · rw [hp] at hf
          cases hf
      · exact hstay

theorem map_config_step (c : Client) (s : State) (e : Event) :
    (step c s e).1.stations.map (·.config) = s.stations.map (·.config) := by
  rcases step_cases c s e with ⟨i, k, st, bytes, hst, -, -, hstep⟩ | ⟨-, hstep⟩
  · rw [hstep]
    obtain ⟨hlt, -⟩ := List.getElem?_eq_some_iff.mp hst
    refine ext_getElem? fun j => ?_
    simp only [serverStep, getElem?_map, getElem?_set, if_pos hlt]
    split
    · rename_i hij
      subst hij
      rw [hst]
      rfl
    · rfl
  · rw [hstep]
    unfold clientStep
    -- only a broadcast touches the servers
    repeat' split
    all_goals first | rfl | simp [broadcast]

theorem lookup_of_granted (hdistinct : (stations.map (·.config.serverIp)).Nodup)
    (hst : st ∈ stations) (h : Granted mac stations st.config.serverIp a) :
    st.leases.byMac.lookup mac = some a := by
  obtain ⟨st', hst', hid, hlookup⟩ := h
  obtain rfl := inj_on_of_nodup_map hdistinct hst' hst hid
  exact hlookup

theorem serve_discover (st : Station) (c : Client) {reply : List UInt8}
    (h : (serve st.config st.leases
      (.datagram (buildDiscover c.xid c.mac c.hostname))).2 = some reply) :
    ∃ pkt, parse (reply.take 1500) = some pkt ∧ pkt.messageType = some msgOffer ∧
      serverIdOf pkt = some st.config.serverIp ∧
      (serve st.config st.leases
        (.datagram (buildDiscover c.xid c.mac c.hostname))).1.byMac.lookup c.mac =
        some pkt.yiaddr := by
  obtain ⟨request, hp, hmac, hkind⟩ := parse_take_buildDiscover c.xid c.mac c.hostname
  simp only [serve, hp, hkind, if_true] at h ⊢
  obtain ⟨addr, haddr, rfl⟩ := Option.map_eq_some_iff.mp h
  obtain ⟨pkt, hpkt, hyiaddr, htype, hid⟩ :=
    parse_take_buildReply request addr st.config msgOffer (by decide)
  refine ⟨pkt, hpkt, htype, hid, ?_⟩
  rw [← hmac, lookup_allocate haddr, hyiaddr]

theorem serve_request (c : Client) (serverId : Ipv4Addr)
    (h : st.leases.byMac.lookup c.mac = some a) :
    ∃ reply pkt, serve st.config st.leases
        (.datagram (buildRequest c.xid c.mac a serverId c.hostname)) = (st.leases, some reply) ∧
      parse (reply.take 1500) = some pkt ∧ pkt.messageType = some msgAck := by
  obtain ⟨request, hp, hmac, hkind, hasked, -⟩ :=
    parse_take_buildRequest c.xid c.mac a serverId c.hostname
  obtain ⟨pkt, hpkt, -, htype, -⟩ := parse_take_buildReply request a st.config msgAck (by decide)
  have hentry : st.leases.byMac.lookup request.chaddr = some a := by rw [hmac, h]
  refine ⟨_, pkt, ?_, hpkt, htype⟩
  simp only [serve, hp, hkind, if_true, hasked]
  exact if_pos hentry

theorem wouldAck_of_granted {offer : Packet} (h : Granted c.mac s.stations serverId offer.yiaddr) :
    WouldAck c s offer serverId := by
  obtain ⟨st, hst, hid, hlookup⟩ := h
  obtain ⟨reply, pkt, hserve, hpkt, htype⟩ := serve_request c serverId hlookup
  exact ⟨st, hst, hid, reply, pkt, by rw [hserve], hpkt, htype⟩

theorem serve_tidy (h : Tidy c s) (hdistinct : (s.stations.map (·.config.serverIp)).Nodup)
    (hst : st ∈ s.stations) (hbytes : bytes ∈ st.inbox)
    (haddressed : ¬Misdirected (s.stations.map (·.config)) st.config.serverIp bytes) :
    st.leases.Extends (serve st.config st.leases (.datagram bytes)).1 ∧
    ∀ reply ∈ (serve st.config st.leases (.datagram bytes)).2, ∃ pkt,
      parse (reply.take 1500) = some pkt ∧ pkt.messageType ≠ some msgNak ∧
      (pkt.messageType = some msgOffer → ∀ id ∈ serverIdOf pkt, id = st.config.serverIp ∧
        (serve st.config st.leases (.datagram bytes)).1.byMac.lookup c.mac = some pkt.yiaddr) := by
  rcases h.requests st hst bytes hbytes with rfl | ⟨serverId, a, rfl, hgranted⟩
  · constructor
    · exact extends_allocate _ _ _
    · intro reply hreply
      obtain ⟨pkt, hpkt, htype, hid, hlookup⟩ := serve_discover st c hreply
      have hne : msgOffer ≠ msgNak := by decide
      refine ⟨pkt, hpkt, by rw [htype]; simpa using hne, fun _ id hid' => ⟨?_, hlookup⟩⟩
      exact Option.some.inj ((hid'.symm.trans hid : some id = _))
  · -- the named server is on the segment, so it is the one that reads
    obtain ⟨st', hst', hid', -⟩ := id hgranted
    have hnamed : namedServer (buildRequest c.xid c.mac a serverId c.hostname) =
        some serverId := by
      obtain ⟨request, hp, -, hkind, -, hid⟩ :=
        parse_take_buildRequest c.xid c.mac a serverId c.hostname
      rw [namedServer, hp, Option.bind_some, if_pos hkind, hid]
    obtain rfl : st.config.serverIp = serverId := by
      by_contra hne
      refine haddressed ⟨st'.config, mem_map_of_mem hst', ?_, ?_⟩
      · rw [hnamed, hid']
      · rw [hid']
        exact Ne.symm hne
    obtain ⟨reply, pkt, hserve, hpkt, htype⟩ :=
      serve_request c st.config.serverIp (lookup_of_granted hdistinct hst hgranted)
    rw [hserve]
    have hnak : msgAck ≠ msgNak := by decide
    have hoffer : msgAck ≠ msgOffer := by decide
    refine ⟨.refl _, fun reply' hreply' => ?_⟩
    obtain rfl := Option.some.inj hreply'
    refine ⟨pkt, hpkt, by rw [htype]; simpa using hnak, fun hoffered => ?_⟩
    rw [htype] at hoffered
    exact absurd (Option.some.inj hoffered) hoffer

theorem Tidy.serverStep (h : Tidy c s) (hdistinct : (s.stations.map (·.config.serverIp)).Nodup)
    {i k : ℕ} (hi : s.stations[i]? = some st) (hbytes : bytes ∈ st.inbox)
    (haddressed : ¬Misdirected (s.stations.map (·.config)) st.config.serverIp bytes) :
    Tidy c (serverStep s i k st bytes).1 := by
  have hst : st ∈ s.stations := mem_of_getElem? hi
  obtain ⟨hext, hreply⟩ := serve_tidy h hdistinct hst hbytes haddressed
  have hlater : Later s.stations (Segment.serverStep s i k st bytes).1.stations :=
    later_set hi rfl hext
  refine ⟨fun st' hst' bytes' hbytes' => ?_, fun bytes' hbytes' => ?_, fun offer id hp => ?_⟩
  · -- what waits for a server waited for it before
    have hcase : ∃ st₀ ∈ s.stations, bytes' ∈ st₀.inbox := by
      rcases mem_or_eq_of_mem_set hst' with hold | rfl
      · exact ⟨st', hold, hbytes'⟩
      · exact ⟨st, hst, mem_of_mem_eraseIdx hbytes'⟩
    obtain ⟨st₀, hst₀, hold⟩ := hcase
    exact (h.requests st₀ hst₀ bytes' hold).later hlater
  · rcases mem_append.mp hbytes' with hold | hnew
    · exact (h.replies bytes' hold).later hlater
    · obtain ⟨pkt, hparse, hnak, hoffer⟩ := hreply bytes' (Option.mem_toList.mp hnew)
      refine ⟨pkt, hparse, hnak, fun ht id hid => ?_⟩
      obtain ⟨rfl, hlookup⟩ := hoffer ht id hid
      obtain ⟨hlt, -⟩ := List.getElem?_eq_some_iff.mp hi
      exact ⟨_, mem_set hlt _, rfl, hlookup⟩
  · exact (h.chosen offer id hp).later hlater

theorem Tidy.step (h : Tidy c s) (hdistinct : (s.stations.map (·.config.serverIp)).Nodup)
    {e : Event} (he : WellAddressed (s.stations.map (·.config)) s e) :
    Tidy c (step c s e).1 ∧ ∀ offer serverId, s.phase = .requesting offer serverId →
      (step c s e).1.phase ≠ .finished (.error (nakError serverId)) := by
  rcases step_cases c s e with ⟨i, k, st, bytes, hi, hbytes, hd, hstep⟩ | ⟨-, hstep⟩
  · rw [hstep]
    refine ⟨h.serverStep hdistinct hi hbytes (he _ hd), fun offer serverId hp hf => ?_⟩
    have hsame : s.phase = .finished (.error (nakError serverId)) := hf
    rw [hp] at hsame
    cases hsame
  · rw [hstep]
    exact h.clientStep e

end Steps

/-! ## Coexistence -/

section Runs

variable {c} {cfgs : List DhcpServerConfig} {events : List Event}

theorem map_config_after (c : Client) (cfgs : List DhcpServerConfig) (events : List Event) :
    (after c cfgs events).stations.map (·.config) = cfgs := by
  refine finalState_invariant (P := fun s => s.stations.map (·.config) = cfgs) ?_
    (fun s e hs => (map_config_step c s e).trans hs) events
  simp [initial, Function.comp_def]

theorem tidy_after (hdistinct : (cfgs.map (·.serverIp)).Nodup)
    (h : Machine.AllSteps (step c) (WellAddressed cfgs) (initial cfgs) events) :
    Tidy c (after c cfgs events) := by
  refine (finalState_invariant_of_allSteps
    (P := fun s => s.stations.map (·.config) = cfgs ∧ Tidy c s)
    ⟨map_config_after c cfgs [], tidy_initial c cfgs⟩ (fun s e hs he => ?_) h).2
  refine ⟨(map_config_step c s e).trans hs.1, (hs.2.step ?_ ?_).1⟩
  · rw [← hs.1, map_map] at hdistinct
    exact hdistinct
  · rwa [hs.1]

theorem exists_delivery_of_mem_handled {h : Handled} (hh : h ∈ handled c cfgs events) :
    ∃ before e rest st, events = before ++ e :: rest ∧
      delivery (after c cfgs before) e = some (st, h.request) ∧ h.config = st.config := by
  obtain ⟨o, ho, rfl⟩ := mem_filterMap.mp hh
  obtain ⟨before, e, rest, hsplit, hout⟩ := exists_split_of_mem_outputs ho
  rcases step_cases c (after c cfgs before) e with ⟨i, k, st, bytes, -, -, hd, hstep⟩ | ⟨-, hstep⟩
  · rw [after] at hstep
    rw [hstep] at hout
    obtain rfl := Option.some.inj hout
    exact ⟨before, e, rest, st, hsplit, hd, rfl⟩
  · rw [after] at hstep
    rw [hstep] at hout
    cases hout

theorem mem_handled_of_delivery {before rest : List Event} {e : Event}
    (hsplit : events = before ++ e :: rest)
    (hd : delivery (after c cfgs before) e = some (st, bytes)) :
    ⟨st.config, bytes, (serve st.config st.leases (.datagram bytes)).2⟩ ∈
      handled c cfgs events := by
  rcases step_cases c (after c cfgs before) e with ⟨i, k, st', bytes', -, -, hd', hstep⟩ | ⟨hd', -⟩
  · obtain ⟨rfl, rfl⟩ := Prod.mk.inj (Option.some.inj (hd.symm.trans hd'))
    have hout : (step c (after c cfgs before) e).2 ∈
        Machine.outputs (step c) (initial cfgs) events := by
      rw [hsplit]
      exact mem_outputs_append (initial cfgs) before e rest
    rw [hstep] at hout
    exact mem_filterMap.mpr ⟨_, hout, rfl⟩
  · rw [hd] at hd'
    cases hd'

/-- **Coexistence of DHCP servers.** Servers with distinct identifiers coexist in a run exactly when
no REQUEST reaches a server other than the one it names: any server that reads it answers it. -/
theorem coexist_iff (cfgs : List DhcpServerConfig) (hdistinct : (cfgs.map (·.serverIp)).Nodup)
    (c : Client) (events : List Event) :
    Coexist c cfgs events ↔
      Machine.AllSteps (step c) (WellAddressed cfgs) (initial cfgs) events := by
  constructor
  · intro h
    refine allSteps_iff_forall_split.mpr fun before e rest hsplit d hd hmis => ?_
    have hreply := h.silent _ (mem_handled_of_delivery hsplit hd) hmis
    obtain ⟨cfg, -, hnamed, -⟩ := hmis
    exact reply_ne_none_of_namedServer hnamed _ _ hreply
  · intro h
    refine ⟨fun hd hmem hmis => ?_, fun before e rest offer serverId hsplit hp _ => ?_⟩
    · obtain ⟨before, e, rest, st, hsplit, hdel, hconfig⟩ := exists_delivery_of_mem_handled hmem
      rw [hconfig] at hmis
      exact absurd hmis (allSteps_iff_forall_split.mp h before e rest hsplit _ hdel)
    · subst hsplit
      have htidy := tidy_after hdistinct (allSteps_append.mp h).1
      have hconfigs := map_config_after c cfgs before
      have he : WellAddressed cfgs (after c cfgs before) e := (allSteps_append.mp h).2.1
      have hids : ((after c cfgs before).stations.map (·.config.serverIp)).Nodup := by
        rw [← hconfigs, map_map] at hdistinct
        exact hdistinct
      rw [after, finalState_append]
      exact (htidy.step hids (by rwa [hconfigs])).2 offer serverId hp

end Runs

/-! ## Two servers -/

def laptop : Client := ⟨"eth0", #v[2, 0, 0, 0, 0, 1], some "laptop", 7⟩

def twoServers : List DhcpServerConfig :=
  [{ edge with poolEnd := .new 10 42 0 9 },
    { edge with
      serverIp := .new 10 43 0 1, poolStart := .new 10 43 0 2, poolEnd := .new 10 43 0 9 }]

/-- Both servers read the DISCOVER. The client takes the first OFFER; the second server reads the
REQUEST, too, and its reply is there before that of the first. -/
def clash : List Event :=
  [.poll false (.ok ()), .serve 0 0, .serve 1 0, .read 0 0, .poll false (.ok ()), .serve 1 0,
    .read 0 0, .poll false (.ok ()), .read 0 0]

def firstOffer : Packet where
  op := opBootreply
  xid := 7
  secs := 0
  flags := 0x8000
  ciaddr := .unspecified
  yiaddr := .new 10 42 0 2
  siaddr := .new 10 42 0 1
  chaddr := laptop.mac
  options := grantOptions { edge with poolEnd := .new 10 42 0 9 } msgOffer

/-- The second server answers a REQUEST that names the first, and the client gives up with that NAK
although the first would confirm the address. -/
theorem not_coexist_clash :
    (∃ h ∈ handled laptop twoServers clash,
      Misdirected twoServers h.config.serverIp h.request ∧ h.reply ≠ none) ∧
    (after laptop twoServers clash.dropLast).phase = .requesting firstOffer (.new 10 42 0 1) ∧
    WouldAck laptop (after laptop twoServers clash.dropLast) firstOffer (.new 10 42 0 1) ∧
    (after laptop twoServers clash).phase = .finished (.error (nakError (.new 10 42 0 1))) ∧
    ¬Coexist laptop twoServers clash := by
  have hreplied : ∃ h ∈ handled laptop twoServers clash,
      Misdirected twoServers h.config.serverIp h.request ∧ h.reply ≠ none := by decide +kernel
  have hgranted : ∃ st ∈ (after laptop twoServers clash.dropLast).stations,
      st.config.serverIp = .new 10 42 0 1 ∧
      st.leases.byMac.lookup laptop.mac = some firstOffer.yiaddr := by decide +kernel
  refine ⟨hreplied, by decide +kernel, wouldAck_of_granted hgranted, by decide +kernel, fun h => ?_⟩
  obtain ⟨handled, hmem, hmis, hreply⟩ := hreplied
  exact hreply (h.silent handled hmem hmis)

/-- Each server reads only what is meant for it: the second one the DISCOVER, the first one the
REQUEST, too. -/
def apart : List Event :=
  [.poll false (.ok ()), .serve 0 0, .serve 1 0, .read 0 0, .poll false (.ok ()), .serve 0 0,
    .read 0 0, .poll false (.ok ()), .read 0 0]

theorem coexist_apart :
    (twoServers.map (·.serverIp)).Nodup ∧ Coexist laptop twoServers apart :=
  ⟨by decide, (coexist_iff twoServers (by decide) laptop apart).mpr (by decide +kernel)⟩

end MitosNetwork.Segment
