import Ftb.Manager.Ops

/-!
# The agent (`ftb_agent.c`)

`progress_loop` takes one message after the other from `FTBM_Recv` and runs the function of the
manager library that its type names.
-/

open FTB FTBU FTBN FTBMI FTBM

namespace Agent

variable {N : Type} (w : Network N)

/-- The test that keeps an event from going back to the agent it came from. -/
def isIncomingAgent (id : Id) (incomingSrc : LocationId) : Bool :=
  CStr.strcaseEq id.clientId.comp "FTB_COMP_MANAGER".toList
    && CStr.strcaseEq id.clientId.compCat "FTB_COMP_CAT_BACKPLANE".toList
    && isEqualLocationId id.locationId incomingSrc

/-- The loop over `ids`. No value where it reads a slot that was not written, or where `FTBM_Send`
has none. -/
def notifyLoop (msg : Msg) (incomingSrc : LocationId) :
    List (Option Id) → Manager N → Option (Manager N)
  | [], a => some a
  | none :: _, _ => none
  | some id :: ids, a =>
    if isIncomingAgent id incomingSrc then notifyLoop msg incomingSrc ids a
    else do
      let (_, a) ← send w { msgType := .notify, src := msg.src, dst := id, event := msg.event } a
      notifyLoop msg incomingSrc ids a

/-- One turn of `progress_loop`, with the message and the location that `FTBM_Recv` returned. -/
def progressLoop (msg : Msg) (incomingSrc : LocationId) (a : Manager N) : Option (Manager N) :=
  match msg.msgType with
  | .notify =>
    match getCatcherCompList msg.event a.info with
    | .error _ => some a
    | .ok l => notifyLoop w msg incomingSrc l.list a
  | .clientReg => some (clientRegister w msg.src a).2
  | .clientDereg => some (clientDeregister w msg.src a).2
  | .cleanupConn => some (cleanupConnection w incomingSrc a).2
  | .regSubscription => some (registerSubscription w msg.src msg.event a).2
  | .subscriptionCancel => some (cancelSubscription w msg.src msg.event a).2
  | .regPublishableEvent => some a
  | .publishableEventRegCancel => some a
  | .unknown _ => some a

end Agent
