import Ftb.Manager.Ops

/-!
# The manager library in a client process (`ftb_manager_lib.c`)

`FTBM_Init(1)`, `FTBM_Finalize`, `FTBM_Get` and the two functions that read a location, over the
functions of the network layer that a leaf calls besides those of `FTBN.Network`. `FTBMI_info` is
static: a second `FTBM_Init` finds in it what the first run of the library left there.
-/

open FTB FTBU FTBMI

namespace FTBN

/-- The network layer below a leaf. `waiting` counts the messages that calls of `FTBN_Recv_msg`
return without blocking. -/
structure LeafNetwork (N : Type) extends Network N where
  /-- `FTBMI_util_get_location_id` and `FTBN_Init`. -/
  init : N → LocationId × N
  /-- `FTBN_Recv_msg`, blocking or not. -/
  recvMsg : Bool → N → Ret × Msg × N
  /-- `FTBN_Finalize`. -/
  finalize : N → N
  waiting : N → Nat
  waiting_lt {net net' : N} {msg : Msg} :
    recvMsg false net = (.success, msg, net') → waiting net' < waiting net

/-- A layer with one agent, at `parent`: every send succeeds, the state is what was sent, oldest
first, and no message comes. -/
def leafOutbox (parent : LocationId) : LeafNetwork (List Msg) where
  toNetwork := { outbox with connect := fun _ _ net => (.success, parent, net) }
  init net := (default, net)
  recvMsg _ net := (.noMsg, default, net)
  finalize net := net
  waiting _ := 0
  waiting_lt h := by cases h

/-- A layer with one agent whose state is what `FTBN_Recv_msg` returns next. -/
def scripted : LeafNetwork (List (Ret × Msg)) where
  sendMsg _ net := (.success, net)
  connect _ _ net := (.success, { (default : LocationId) with pid := 1 }, net)
  disconnectPeer _ net := (.success, net)
  init net := (default, net)
  recvMsg blocking net :=
    match blocking, net with
    | true, (ret, msg) :: net => (ret, msg, net)
    | _, net => (.noMsg, default, net)
  finalize net := net
  waiting _ := 0
  waiting_lt h := by cases h

end FTBN

open FTBN

namespace FTBM

variable {N : Type} (w : LeafNetwork N)

/-- `FTBM_Init(1)`. -/
def initLeaf (a : Manager N) : Ret × Manager N :=
  let (location, net) := w.init a.net
  let self : Id :=
    { agentId location with clientId := { (agentId location).clientId with ext := 1 } }
  let msg : Msg := { msgType := .clientReg, src := self, dst := default, event := default }
  let (_, parent, net) := w.connect msg a.info.parent net
  let info : NodeInfo :=
    { a.info with
      parent, self, errHandling := 0, leaf := true, peers := .empty, catchEventMap := .empty }
  if parent.pid == 0 then (.errGeneral, { info, net })
  else (.success, { info := { info with initialized := true }, net })

/-- `FTBM_Finalize` of a leaf. -/
def finalizeLeaf (a : Manager N) : Ret × Manager N :=
  if !a.info.initialized then (.success, a)
  else
    let dst : Id := { (default : Id) with locationId := a.info.parent }
    let msg : Msg := { msgType := .clientDereg, src := a.info.self, dst, event := default }
    let net := w.finalize (w.sendMsg msg a.net).2
    (.success, { info := { a.info with initialized := false }, net })

/-- `FTBM_Get`. Without a message, `msg` stays as it was. -/
def get (blocking : Bool) (msg : Msg) (a : Manager N) : Ret × Msg × Manager N :=
  if !a.info.initialized then (.errGeneral, msg, a)
  else
    let (ret, read, net) := w.recvMsg blocking a.net
    let a := { a with net }
    if ret = .success then (ret, read, a)
    else if ret = .errNetworkGeneral then (ret, msg, utilReconnect w.toNetwork a)
    else (ret, msg, a)

/-- `FTBM_Get_location_id`, into `locationId`. -/
def getLocationId (locationId : LocationId) (s : NodeInfo) : LocationId :=
  if s.initialized then s.self.locationId else locationId

/-- `FTBM_Get_parent_location_id`, into `locationId`. -/
def getParentLocationId (locationId : LocationId) (s : NodeInfo) : LocationId :=
  if s.initialized then s.parent else locationId

/-! ## Sends of a leaf -/

section
variable {N : Type} {w : Network N} {a : Manager N}

/-- `FTBMI_util_reconnect` of a leaf takes the new parent, or gives up. -/
theorem utilReconnect_leaf (hl : a.info.leaf = true) :
    utilReconnect w a =
      let r := w.connect
        { msgType := .clientReg, src := a.info.self, dst := default, event := default }
        a.info.parent a.net
      { info := { a.info with
          parent := r.2.1, initialized := a.info.initialized && !(r.2.1.pid == 0) }, net := r.2.2 } := by
  unfold utilReconnect
  dsimp only
  rw [hl]
  by_cases hp : ((w.connect
      { msgType := .clientReg, src := a.info.self, dst := default, event := default }
      a.info.parent a.net).2.1.pid == 0) = true
  · simp [hp]
  · simp [hp]

/-- `FTBM_Send` of a leaf always returns: it reads nothing of `peers`. -/
theorem send_leaf (hl : a.info.leaf = true) (msg : Msg) :
    send w msg a = some (
      if !a.info.initialized then (.errGeneral, a)
      else if (w.sendMsg msg a.net).1 = .success then
        (.success, { a with net := (w.sendMsg msg a.net).2 })
      else if isEqualLocationId a.info.parent msg.dst.locationId then
        ((w.sendMsg msg a.net).1, utilReconnect w { a with net := (w.sendMsg msg a.net).2 })
      else ((w.sendMsg msg a.net).1, { a with net := (w.sendMsg msg a.net).2 })) := by
  unfold send
  by_cases hi : (!a.info.initialized) = true
  · rw [if_pos hi, if_pos hi]
  · rw [if_neg hi, if_neg hi]
    by_cases hs : (w.sendMsg msg a.net).1 = .success
    · simp [hs]
    · by_cases hp : isEqualLocationId a.info.parent msg.dst.locationId = true
      · simp [hs, hp, hl]
      · simp [hs, hp, hl]

theorem leaf_utilReconnect (hl : a.info.leaf = true) : (utilReconnect w a).info.leaf = true := by
  rw [utilReconnect_leaf hl]
  exact hl

theorem leaf_send {msg : Msg} {r : Ret × Manager N} (h : send w msg a = some r)
    (hl : a.info.leaf = true) : r.2.info.leaf = true := by
  rw [send_leaf hl, Option.some.injEq] at h
  subst h
  split
  · exact hl
  · split
    · exact hl
    · split
      · exact leaf_utilReconnect hl
      · exact hl

end

end FTBM
