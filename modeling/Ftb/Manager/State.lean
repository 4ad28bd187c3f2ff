import Ftb.Util

/-!
# The state of the manager library (`ftb_manager_lib.c`)

`FTBMI_info` with its three linked tables, and the network layer below it (`ftb_network.h`),
which the manager library uses through `FTBN_Send_msg`, `FTBN_Connect` and
`FTBN_Disconnect_peer` only. The layer is chosen when the library is built (`FTB_NETWORK_SOCK`),
so it is a parameter here (`FTBN.Network`).

A component is allocated once and referred to by pointers from `catch_event_map`. A pointer is
`CompRef`: the address, and the id behind it, which no function changes after the allocation.
-/

open FTB FTBU

namespace FTBN

/-- The functions of the network layer that the manager library calls. The state `N` holds the
connections and what was sent. `connect` takes the registration message and the location of the
parent so far, and returns the location it leaves in its out-parameter. -/
structure Network (N : Type) where
  sendMsg : Msg → N → Ret × N
  connect : Msg → LocationId → N → Ret × LocationId × N
  disconnectPeer : LocationId → N → Ret × N

/-- Messages sent in order, their results not looked at. -/
def Network.sendAll {N : Type} (w : Network N) (msgs : List Msg) (net : N) : N :=
  msgs.foldl (fun net msg => (w.sendMsg msg net).2) net

/-- The layer on which every send succeeds: the state is what was sent, oldest first. No parent is
ever found. -/
def outbox : Network (List Msg) where
  sendMsg msg net := (.success, net ++ [msg])
  connect _ _ net := (.success, default, net)
  disconnectPeer _ net := (.success, net)

end FTBN

namespace FTBMI

/-- `FTBMI_comp_info_t *`. -/
structure CompRef where
  addr : Nat
  id : Id
  deriving DecidableEq, Repr, Inhabited

/-- `FTBMI_set_event_mask_t`. -/
abbrev SetEventMask := KeyList (fun m : Event => m) isEqualEventMask

/-- `FTBMI_comp_info_t` at `addr`. -/
structure CompInfo where
  addr : Nat
  id : Id
  catchEventSet : SetEventMask
  deriving DecidableEq

/-- The pointer to the component. -/
def CompInfo.ref (c : CompInfo) : CompRef := ⟨c.addr, c.id⟩

/-- `FTBMI_map_ftb_id_2_comp_info_t` inside `catch_event_map`: keys and data point into the
components. -/
abbrev CompMap := KeyList CompRef.id isEqualFtbId

/-- A node of `catch_event_map`: the mask and the components that subscribed to it. -/
structure CatchEntry where
  mask : Event
  comps : CompMap
  deriving DecidableEq

/-- `FTBMI_map_event_mask_2_comp_info_map_t`. -/
abbrev CatchEventMap := KeyList CatchEntry.mask isEqualEventMask

/-- `FTBMI_map_ftb_id_2_comp_info_t` of `FTBMI_info.peers`. -/
abbrev Peers := KeyList CompInfo.id isEqualFtbId

/-- `FTB_ERR_HANDLE_RECOVER`. -/
def errHandleRecover : UInt8 := 0x2

/-- `FTBMI_node_info_t`, with `FTBMI_initialized` and the next address `malloc` returns. -/
structure NodeInfo where
  parent : LocationId
  self : Id
  errHandling : UInt8
  leaf : Bool
  peers : Peers
  catchEventMap : CatchEventMap
  initialized : Bool
  nextAddr : Nat
  deriving DecidableEq

/-- The manager library over a network layer. -/
structure Manager (N : Type) where
  info : NodeInfo
  net : N

/-- The test the manager library makes for another agent: its names, and `ext == 0`. -/
def isAgent (id : Id) : Bool :=
  CStr.strcaseEq id.clientId.compCat "FTB_COMP_CAT_BACKPLANE".toList
    && CStr.strcaseEq id.clientId.comp "FTB_COMP_MANAGER".toList && id.clientId.ext == 0

/-- The id `FTBM_Init` and `FTBMI_util_reconnect` build for the agent at a location. -/
def agentId (loc : LocationId) : Id where
  locationId := loc
  clientId :=
    { region := [], compCat := "FTB_COMP_CAT_BACKPLANE".toList,
      comp := "FTB_COMP_MANAGER".toList, clientName := [], ext := 0 }

theorem isAgent_agentId (loc : LocationId) : isAgent (agentId loc) = true := by
  have hc : (isAgent (agentId default)) = true := by decide
  exact hc

/-- Whether `catch_event_map` lists the component under the mask. -/
def lists (map : CatchEventMap) (id : Id) (mask : Event) : Bool :=
  (map.find? mask).any fun ent => ent.comps.contains id

/-- Whether the component is in `peers`. -/
def NodeInfo.isPeer (s : NodeInfo) (id : Id) : Bool := s.peers.contains id

/-- Whether the component is listed under the mask. -/
def NodeInfo.listed (s : NodeInfo) (id : Id) (mask : Event) : Bool := lists s.catchEventMap id mask

theorem lists_iff {map : CatchEventMap} {id : Id} {mask : Event} :
    lists map id mask = true ↔ ∃ ent ∈ map.nodes, isEqualEventMask ent.mask mask = true ∧
      ∃ r ∈ ent.comps.nodes, isEqualFtbId r.id id = true := by
  simp only [lists, Option.any_eq_true, KeyList.find?_eq_some, KeyList.contains_eq_isSome,
    KeyList.find?_isSome, and_assoc]

theorem lists_congr {map : CatchEventMap} {i j : Id} {m m' : Event}
    (hi : isEqualFtbId i j = true) (hm : isEqualEventMask m m' = true) :
    lists map i m = lists map j m' := by
  rw [Bool.eq_iff_iff, lists_iff, lists_iff]
  simp only [KeyEq.congr_right hi, KeyEq.congr_right hm]

theorem NodeInfo.isPeer_iff {s : NodeInfo} {id : Id} :
    s.isPeer id = true ↔ ∃ c ∈ s.peers.nodes, isEqualFtbId c.id id = true := by
  rw [isPeer, KeyList.contains_eq_isSome, KeyList.find?_isSome]

/-- The lookup of a peer. -/
theorem NodeInfo.find?_of_isPeer {s : NodeInfo} {id : Id} (h : s.isPeer id = true) :
    ∃ comp, s.peers.find? id = some comp := by
  rwa [isPeer, KeyList.contains_eq_isSome, Option.isSome_iff_exists] at h

theorem NodeInfo.isPeer_congr {s : NodeInfo} {i j : Id} (hi : isEqualFtbId i j = true) :
    s.isPeer i = s.isPeer j := by
  rw [Bool.eq_iff_iff, isPeer_iff, isPeer_iff]
  simp only [KeyEq.congr_right hi]

end FTBMI
