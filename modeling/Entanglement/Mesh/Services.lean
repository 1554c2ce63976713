import Entanglement.Mesh.Sightings

/-!
# The services behind the sightings

A peer enters the map of the browser under the id of its TXT record, and leaves it under the id that the
name of a removed service reads as. Nothing ties the two together but the habit of honest nodes to
announce themselves under their own id, in lower case, in the service type that is browsed
(`canonicalName`). As long as every service keeps to it, the map holds exactly the peers of the services
that are up (`mem_peers_iff`). A service with another name leaves its peer behind when it goes, or takes
that of somebody else away.
-/

namespace Entanglement.Mesh

open Lib

/-- What the mDNS daemon reports of a service, under its full name. -/
inductive Report
  | resolved (fullname : Text) (now : Nat) (info : ResolvedService)
  | removed (fullname : Text)

/-- The event as the browser handles it; `parse_service` does not look at the name. -/
def Report.event : Report → ServiceEvent
  | resolved _ now info => .resolved now info
  | removed fullname => .removed fullname

section Services
variable (X : Crates) (selfId : PeerId)

/-- The map after the reports. -/
def peersAfter (reports : List Report) : Sightings := (browse X selfId (reports.map Report.event)).1

/-- The report resolves the service with a record that announces the id. -/
def Report.Announces (fullname : Text) (id : PeerId) (r : Report) : Prop :=
  ∃ now info p, r = .resolved fullname now info ∧ parseService X now info = some p ∧ p.peerId = id

/-- The report ends what the service announced before: it is gone, or announces anew. -/
def Report.Renews (fullname : Text) (r : Report) : Prop :=
  r = .removed fullname ∨ ∃ id, r.Announces X fullname id

/-- The service is up, and the id is what it last announced. -/
def Up (reports : List Report) (fullname : Text) (id : PeerId) : Prop :=
  Since (Report.Announces X fullname id) (Report.Renews X fullname) reports

/-- The map holds the peers of the services that are up, and of no others. -/
def Accurate (reports : List Report) : Prop :=
  ∀ id, id ∈ peersAfter X selfId reports ↔ id ≠ selfId ∧ ∃ fullname, Up X reports fullname id

/-- The name of the service by which a node announces itself. -/
def canonicalName (serviceType : Text) (id : PeerId) : Text := id.toHex ++ '.' :: serviceType

/-- The instance, up to the first dot of a full name, reads as the id. -/
def NamesPeer (fullname : Text) (id : PeerId) : Prop :=
  ∃ inst rest, Text.splitFirst '.' fullname = some (inst, rest) ∧ PeerId.fromHex inst = .ok id

/-- The service announces the id of its name, and a name that reads as an id is that id's own. -/
def Report.Proper (serviceType : Text) : Report → Prop
  | resolved fullname now info => ∀ p, parseService X now info = some p →
      fullname = canonicalName serviceType p.peerId
  | removed fullname => ∀ id, NamesPeer fullname id → fullname = canonicalName serviceType id

end Services

/-! ## One report -/

variable {fullname : Text}

section Step
variable {X : Crates} {selfId : PeerId} {peers : Sightings}

theorem mem_serviceResolved {now : Nat} {info : ResolvedService} {id : PeerId} :
    id ∈ (serviceResolved X selfId peers now info).1 ↔
      (id ≠ selfId ∧ ∃ p, parseService X now info = some p ∧ p.peerId = id) ∨ id ∈ peers := by
  unfold serviceResolved
  cases hparse : parseService X now info with
  | none => simp
  | some p =>
    simp only [Option.some.injEq, exists_eq_left']
    by_cases hself : p.peerId = selfId
    · rw [if_pos hself]
      refine ⟨.inr, ?_⟩
      rintro (⟨hid, rfl⟩ | hmem)
      · exact absurd hself hid
      · exact hmem
    · rw [if_neg hself, resolve, AList.mem_insert]
      refine or_congr_left ⟨?_, fun h => h.2.symm⟩
      rintro rfl
      exact ⟨hself, rfl⟩

theorem mem_serviceRemoved {id : PeerId} :
    id ∈ (serviceRemoved peers fullname).1 ↔ id ∈ peers ∧ ¬ NamesPeer fullname id := by
  unfold serviceRemoved NamesPeer
  cases Text.splitFirst '.' fullname with
  | none => simp
  | some parts =>
    obtain ⟨inst, rest⟩ := parts
    simp only [Option.some.injEq, Prod.mk.injEq]
    cases hread : PeerId.fromHex inst with
    | error e => simp [hread]
    | ok peer =>
      have hnames : (∃ inst' rest', (inst = inst' ∧ rest = rest') ∧ PeerId.fromHex inst' = .ok id) ↔
          peer = id := by
        constructor
        · rintro ⟨_, _, ⟨rfl, rfl⟩, h⟩
          exact Except.ok.inj (hread.symm.trans h)
        · rintro rfl
          exact ⟨inst, rest, ⟨rfl, rfl⟩, hread⟩
      rw [hnames]
      dsimp only
      cases hseen : peers.lookup peer with
      | none =>
        have habsent : peer ∉ peers := AList.lookup_eq_none.1 hseen
        exact ⟨fun h => ⟨h, fun heq => habsent (heq ▸ h)⟩, And.left⟩
      | some seen =>
        rw [AList.mem_erase]
        exact ⟨fun h => ⟨h.2, Ne.symm h.1⟩, fun h => ⟨Ne.symm h.2, h.1⟩⟩

theorem peersAfter_concat (reports : List Report) (r : Report) :
    peersAfter X selfId (reports ++ [r]) =
      (turn X selfId (peersAfter X selfId reports) r.event).1 := by
  rw [peersAfter, List.map_append, List.map_singleton, browse, Mealy.after_append]
  rfl

end Step

/-! ## Whole runs -/

section Runs
variable {X : Crates} {selfId : PeerId} {serviceType : Text}

theorem canonicalName_inj {id id' : PeerId} :
    canonicalName serviceType id = canonicalName serviceType id' ↔ id = id' := by
  refine ⟨fun h => ?_, fun h => by rw [h]⟩
  have hhex : id.toHex = id'.toHex := List.append_cancel_right h
  have hread := PeerId.fromHex_toHex id
  rw [hhex, PeerId.fromHex_toHex] at hread
  exact (Except.ok.inj hread).symm

theorem namesPeer_canonicalName (id : PeerId) : NamesPeer (canonicalName serviceType id) id := by
  have hdot : '.' ∉ id.toHex := fun h => absurd (Hex.isAsciiHexdigit_of_mem_encode h) (by decide)
  exact ⟨id.toHex, serviceType, Text.splitFirst_append hdot _, PeerId.fromHex_toHex id⟩

theorem NamesPeer.unique {fullname : Text} {id id' : PeerId} (h : NamesPeer fullname id)
    (h' : NamesPeer fullname id') : id = id' := by
  obtain ⟨inst, rest, hsplit, hread⟩ := h
  obtain ⟨inst', rest', hsplit', hread'⟩ := h'
  obtain ⟨rfl, -⟩ := Prod.mk.inj (Option.some.inj (hsplit.symm.trans hsplit'))
  exact Except.ok.inj (hread.symm.trans hread')

variable {reports : List Report}

/-- A service that is up has the name of the peer that it announces. -/
theorem Up.fullname_eq (h : ∀ r ∈ reports, r.Proper X serviceType) {id : PeerId}
    (hup : Up X reports fullname id) : fullname = canonicalName serviceType id := by
  obtain ⟨before, r, after, rfl, ⟨now, info, p, rfl, hparse, rfl⟩, -⟩ := hup
  exact h (.resolved fullname now info) (List.mem_append_right _ List.mem_cons_self) p hparse

theorem exists_up_iff (h : ∀ r ∈ reports, r.Proper X serviceType) {id : PeerId} :
    (∃ fullname, Up X reports fullname id) ↔ Up X reports (canonicalName serviceType id) id := by
  refine ⟨?_, fun hup => ⟨_, hup⟩⟩
  rintro ⟨fullname, hup⟩
  exact hup.fullname_eq h ▸ hup

theorem announces_resolved {name : Text} {now : Nat} {info : ResolvedService} {id : PeerId} :
    (Report.resolved fullname now info).Announces X name id ↔
      fullname = name ∧ ∃ p, parseService X now info = some p ∧ p.peerId = id := by
  constructor
  · rintro ⟨_, _, p, heq, hparse, hid⟩
    cases heq
    exact ⟨rfl, p, hparse, hid⟩
  · rintro ⟨rfl, p, hparse, hid⟩
    exact ⟨now, info, p, rfl, hparse, hid⟩

/-- What a report of a service under its proper name does to the peers that are up. -/
theorem up_concat {r : Report} (hr : r.Proper X serviceType) {id : PeerId} :
    Up X (reports ++ [r]) (canonicalName serviceType id) id ↔
      match r with
      | .resolved _ now info =>
        (∃ p, parseService X now info = some p ∧ p.peerId = id) ∨
          Up X reports (canonicalName serviceType id) id
      | .removed fullname =>
        Up X reports (canonicalName serviceType id) id ∧ ¬ NamesPeer fullname id := by
  rw [Up, since_concat]
  cases r with
  | resolved fullname now info =>
    dsimp only
    by_cases hann : ∃ p, parseService X now info = some p ∧ p.peerId = id
    · obtain ⟨p, hparse, rfl⟩ := hann
      have hname : fullname = canonicalName serviceType p.peerId := hr p hparse
      exact ⟨fun _ => .inl ⟨p, hparse, rfl⟩,
        fun _ => .inl (announces_resolved.2 ⟨hname, p, hparse, rfl⟩)⟩
    · have hkeeps : ¬ (Report.resolved fullname now info).Renews X (canonicalName serviceType id) := by
        rintro (heq | ⟨id', h⟩)
        · cases heq
        · obtain ⟨rfl, p, hparse, -⟩ := announces_resolved.1 h
          exact hann ⟨p, hparse, (canonicalName_inj.1 (hr p hparse)).symm⟩
      constructor
      · rintro (h | ⟨-, hup⟩)
        · exact .inl (announces_resolved.1 h).2
        · exact .inr hup
      · rintro (h | hup)
        · exact absurd h hann
        · exact .inr ⟨hkeeps, hup⟩
  | removed fullname =>
    dsimp only
    have hnone : ∀ id', ¬ (Report.removed fullname).Announces X (canonicalName serviceType id) id' := by
      rintro id' ⟨_, _, _, heq, -⟩
      cases heq
    have hrenews : (Report.removed fullname).Renews X (canonicalName serviceType id) ↔
        NamesPeer fullname id := by
      constructor
      · rintro (heq | ⟨id', h⟩)
        · cases heq
          exact namesPeer_canonicalName id
        · exact absurd h (hnone id')
      · intro hnames
        exact .inl (congrArg _ (hr id hnames))
    rw [hrenews]
    exact ⟨fun h => (h.resolve_left (hnone id)).symm, fun h => .inr h.symm⟩

/-- The peers of the map are those of the services that are up. -/
theorem mem_peers_iff (h : ∀ r ∈ reports, r.Proper X serviceType) (id : PeerId) :
    id ∈ peersAfter X selfId reports ↔
      id ≠ selfId ∧ Up X reports (canonicalName serviceType id) id := by
  induction reports using List.reverseRecOn with
  | nil => exact ⟨fun hmem => (nomatch hmem), fun hup => absurd hup.2 not_since_nil⟩
  | append_singleton reports r ih =>
    have hr := h r (List.mem_append_right _ (List.mem_singleton_self r))
    have ih := ih fun r' hr' => h r' (List.mem_append_left _ hr')
    rw [peersAfter_concat, up_concat hr]
    cases r with
    | resolved fullname now info =>
      refine mem_serviceResolved.trans ?_
      rw [ih]
      exact ⟨fun hmem => hmem.elim (fun hp => ⟨hp.1, .inl hp.2⟩) (fun hp => ⟨hp.1, .inr hp.2⟩),
        fun hup => hup.2.imp (fun hp => ⟨hup.1, hp⟩) (fun hp => ⟨hup.1, hp⟩)⟩
    | removed fullname =>
      refine mem_serviceRemoved.trans ?_
      rw [ih, and_assoc]

theorem accurate_of_proper (h : ∀ r ∈ reports, r.Proper X serviceType) :
    Accurate X selfId reports := by
  intro id
  rw [mem_peers_iff h, exists_up_iff h]

/-- A removed service takes with it the peer that it announced. -/
theorem mem_peersAfter_removed (h : ∀ r ∈ reports ++ [.removed fullname], r.Proper X serviceType)
    (id : PeerId) :
    id ∈ peersAfter X selfId (reports ++ [.removed fullname]) ↔
      id ∈ peersAfter X selfId reports ∧ ¬ Up X reports fullname id := by
  have hreports : ∀ r ∈ reports, r.Proper X serviceType := fun r hr =>
    h r (List.mem_append_left _ hr)
  have hremoved : (Report.removed fullname).Proper X serviceType :=
    h _ (List.mem_append_right _ (List.mem_singleton_self _))
  rw [peersAfter_concat]
  refine mem_serviceRemoved.trans (and_congr_right fun hmem => not_congr ?_)
  constructor
  · intro hnames
    rw [hremoved id hnames]
    exact ((mem_peers_iff hreports id).1 hmem).2
  · intro hup
    rw [hup.fullname_eq hreports]
    exact namesPeer_canonicalName id

end Runs

/-- A record with nothing but the id. -/
def bareRecord (id : PeerId) : ResolvedService := .ofProperties [("peer_id", id.toHex)]

theorem parseService_bareRecord (X : Crates) (now : Nat) (id : PeerId) :
    parseService X now (bareRecord id) = some ⟨id, [], [], 7001, [], none, none, none, now⟩ := by
  have hid : (bareRecord id).property "peer_id" = some id.toHex := rfl
  unfold parseService
  rw [hid, Option.bind_some, PeerId.fromHex_toHex]
  rfl

/-- One service announces the peer, and then some service goes. -/
def comeAndGo (id : PeerId) (came went : Text) : List Report :=
  [.resolved came 0 (bareRecord id), .removed went]

section ComeAndGo
variable {X : Crates} {selfId id : PeerId} {came went : Text}

theorem mem_peersAfter_comeAndGo (hself : id ≠ selfId) :
    id ∈ peersAfter X selfId (comeAndGo id came went) ↔ ¬ NamesPeer went id := by
  have hcame : id ∈ (serviceResolved X selfId ∅ 0 (bareRecord id)).1 :=
    mem_serviceResolved.2 (.inl ⟨hself, _, parseService_bareRecord X 0 id, rfl⟩)
  exact mem_serviceRemoved.trans (and_iff_right hcame)

theorem up_comeAndGo :
    Up X (comeAndGo id came went) fullname id ↔ came = fullname ∧ went ≠ fullname := by
  have hgo : comeAndGo id came went = ([] ++ [.resolved came 0 (bareRecord id)]) ++ [.removed went] :=
    rfl
  have hann : (Report.resolved came 0 (bareRecord id)).Announces X fullname id ↔ came = fullname :=
    announces_resolved.trans (and_iff_left ⟨_, parseService_bareRecord X 0 id, rfl⟩)
  have hgone : ∀ id', ¬ (Report.removed went).Announces X fullname id' := by
    rintro id' ⟨_, _, _, heq, -⟩
    cases heq
  have hends : (Report.removed went).Renews X fullname ↔ went = fullname := by
    constructor
    · rintro (heq | ⟨id', h⟩)
      · exact Report.removed.inj heq
      · exact absurd h (hgone id')
    · rintro rfl
      exact .inl rfl
  rw [Up, hgo, since_concat, since_concat, hann, hends]
  constructor
  · rintro (h | ⟨hwent, h | ⟨-, h⟩⟩)
    · exact absurd h (hgone id)
    · exact ⟨h, hwent⟩
    · exact absurd h not_since_nil
  · rintro ⟨hcame, hwent⟩
    exact .inr ⟨hwent, .inl hcame⟩

end ComeAndGo

/-! ## The map and the services -/

/-- **The map reflects the services that are up**, at every moment of a run in which they bear their
proper names: a service that goes takes its own peer with it, and no other. -/
theorem discovery_accurate (X : Crates) (selfId : PeerId) (serviceType : Text)
    (reports : List Report) (h : ∀ r ∈ reports, r.Proper X serviceType) :
    (∀ done rest, reports = done ++ rest → Accurate X selfId done) ∧
      ∀ done fullname rest, reports = done ++ .removed fullname :: rest →
        ∀ id, id ∈ peersAfter X selfId (done ++ [.removed fullname]) ↔
          id ∈ peersAfter X selfId done ∧ ¬ Up X done fullname id := by
  constructor
  · rintro done rest rfl
    exact accurate_of_proper fun r hr => h r (List.mem_append_left _ hr)
  · rintro done fullname rest rfl id
    refine mem_peersAfter_removed (fun r hr => h r ?_) id
    rcases List.mem_append.1 hr with hr | hr
    · exact List.mem_append_left _ hr
    · exact List.mem_append_right _ (List.mem_singleton.1 hr ▸ List.mem_cons_self)


/-- `SERVICE_TYPE`. -/
def serviceType : Text := "_entangle._udp.local."

/-- A node that comes and goes under its own name is in the map while it is there. -/
theorem discovery_accurate_own_name :
    (∀ r ∈ comeAndGo remotePeer (canonicalName serviceType remotePeer)
        (canonicalName serviceType remotePeer), r.Proper .sample serviceType) ∧
      Accurate .sample localPeer
        [.resolved (canonicalName serviceType remotePeer) 0 (bareRecord remotePeer)] ∧
      remotePeer ∉ peersAfter .sample localPeer
        (comeAndGo remotePeer (canonicalName serviceType remotePeer)
          (canonicalName serviceType remotePeer)) := by
  have hproper : ∀ r ∈ comeAndGo remotePeer (canonicalName serviceType remotePeer)
      (canonicalName serviceType remotePeer), r.Proper .sample serviceType := by
    intro r hr
    rcases List.mem_pair.1 hr with rfl | rfl
    · intro p hp
      rw [parseService_bareRecord] at hp
      cases hp
      rfl
    · intro id hnames
      rw [hnames.unique (namesPeer_canonicalName remotePeer)]
  obtain ⟨hacc, -⟩ := discovery_accurate .sample localPeer serviceType _ hproper
  refine ⟨hproper, hacc _ _ rfl, fun hmem => ?_⟩
  obtain ⟨-, fullname, hup⟩ := (hacc _ [] (List.append_nil _).symm remotePeer).1 hmem
  obtain ⟨hcame, hwent⟩ := up_comeAndGo.1 hup
  exact hwent hcame

/-- Other names deceive the map. A service called `x` announces the peer and goes, and the peer stays;
and the peer of a service that is up goes with another service whose name begins as that one's. -/
theorem misnamed_service_inaccurate :
    (remotePeer ∈ peersAfter .sample localPeer
        (comeAndGo remotePeer ("x." ++ serviceType) ("x." ++ serviceType)) ∧
      ∀ fullname, ¬ Up .sample
        (comeAndGo remotePeer ("x." ++ serviceType) ("x." ++ serviceType))
        fullname remotePeer) ∧
    (remotePeer ∉ peersAfter .sample localPeer
        (comeAndGo remotePeer (canonicalName serviceType remotePeer)
          (canonicalName ("y." ++ serviceType) remotePeer)) ∧
      Up .sample
        (comeAndGo remotePeer (canonicalName serviceType remotePeer)
          (canonicalName ("y." ++ serviceType) remotePeer))
        (canonicalName serviceType remotePeer) remotePeer) := by
  have hself : remotePeer ≠ localPeer := by decide
  refine ⟨⟨(mem_peersAfter_comeAndGo hself).2 ?_, fun fullname hup => ?_⟩, ?_, up_comeAndGo.2 ⟨rfl, ?_⟩⟩
  · rintro ⟨inst, rest, hsplit, hread⟩
    have hx : Text.splitFirst '.' ("x." ++ serviceType) = some (['x'], serviceType) := rfl
    rw [hx] at hsplit
    cases hsplit
    have hshort : PeerId.fromHex ['x'] = .error (.wrongLength 1) := rfl
    rw [hshort] at hread
    cases hread
  · obtain ⟨hcame, hwent⟩ := up_comeAndGo.1 hup
    exact hwent hcame
  · exact fun hmem => (mem_peersAfter_comeAndGo hself).1 hmem (namesPeer_canonicalName remotePeer)
  · intro heq
    exact absurd (List.append_cancel_left heq) (by decide)

end Entanglement.Mesh
