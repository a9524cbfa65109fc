/-
Envelopes and the checks a node makes on them
(`protocol/types.go`, `runtime/auth/policy.go`).

A frame from a child must not be control, must not name a principal, and its source
has to be represented by the child's link.  A frame from the parent is either control
with the current epoch, or speaks for the parent alone.  Control is made from a
request by `promoteControl`, which changes the phase and the epoch only.

What the Go libraries decide (letters and digits of Unicode, JSON) is a parameter,
`Platform`.
-/
import MyFlowHub.TreeInvariant

open TreeState

/-- `protocol.Phase`; `Codec.Decode` and `Session.Send` refuse every other value. -/
inductive Phase where
  | request | control | response | event
  deriving DecidableEq, Repr

/-- `protocol.Operation`. -/
inductive Operation where
  | join | joinAck | routeAnnounce | routeWithdraw | subscribe | unsubscribe | subscribeAck
  | resourceEvent | resourceGap | operate | operateResult | sessionOpen | sessionOpenResult
  | sessionData | sessionClose | error | heartbeat
  deriving DecidableEq, Repr

/-- `protocol.Envelope`. -/
structure Envelope where
  version : UInt16 := 2
  phase : Phase
  operation : Operation
  messageID : MessageID := 0
  correlationID : MessageID := 0
  source : NodeID
  principal : NodeID := 0
  target : NodeID
  resource : ResourceID := ⟨0, ""⟩
  topologyEpoch : UInt64 := 0
  deadlineUnixMS : Int64 := 0
  contentType : String := ""
  schema : String := ""
  capability : CapabilityID := ""
  payload : List UInt8 := []
  deriving DecidableEq

/-- `Envelope.Subject`. -/
def Envelope.subject (e : Envelope) : NodeID := if e.principal ≠ 0 then e.principal else e.source

/-- The parts of an envelope that no hop may change. -/
def Envelope.Same (e e' : Envelope) : Prop :=
  e.subject = e'.subject ∧ e.capability = e'.capability ∧ e.resource = e'.resource ∧
    e.operation = e'.operation ∧ e.payload = e'.payload

theorem Envelope.Same.refl (e : Envelope) : e.Same e := ⟨rfl, rfl, rfl, rfl, rfl⟩

theorem Envelope.Same.symm {e e' : Envelope} (h : e.Same e') : e'.Same e := by
  obtain ⟨hs, hc, hr, ho, hp⟩ := h
  exact ⟨hs.symm, hc.symm, hr.symm, ho.symm, hp.symm⟩

theorem Envelope.Same.trans {e e' e'' : Envelope} (h : e.Same e') (h' : e'.Same e'') :
    e.Same e'' := by
  obtain ⟨hs, hc, hr, ho, hp⟩ := h
  obtain ⟨hs', hc', hr', ho', hp'⟩ := h'
  exact ⟨hs.trans hs', hc.trans hc', hr.trans hr', ho.trans ho', hp.trans hp'⟩

/-- What the runtime takes from the Go libraries. -/
structure Platform where
  /-- `unicode.IsLetter` or `unicode.IsDigit` -/
  isLetterOrDigit : Char → Bool
  /-- `json.Marshal` of an error payload -/
  marshalError : ErrorPayload → List UInt8

namespace Auth

/-- `auth.Action`. -/
abbrev Action := String

/-- `auth.Request`. -/
structure Request where
  subject : NodeID
  action : Action
  capability : CapabilityID
  resource : ResourceID
  deriving DecidableEq, Repr

/-- `auth.Policy` at one moment: the answer of `Authorize`, with `none` for permission,
and `PolicyGeneration`. -/
structure Policy where
  authorize : Request → Option String
  generation : UInt64 := 1

/-- The errors of the inbound checks; `forbidden` wraps `ErrForbidden`. -/
inductive InboundError where
  | forbidden (detail : String)
  | tree (err : TreeError)
  deriving DecidableEq, Repr

variable (os : Platform)

/-- `validateExtensibleIdentifier` of package `protocol`; a Lean string is valid UTF-8. -/
def validateExtensibleIdentifier (field value : String) : Option String :=
  if value = "" then some s!"{field} is required"
  else if value.utf8ByteSize > 128 then
    some s!"{field} must be valid UTF-8 with at most 128 bytes"
  else
    let rec scan : ℕ → List Char → Option String
      | _, [] => none
      | index, character :: rest =>
        let punctuation := character = '.' ∨ character = '-' ∨ character = '_'
        if os.isLetterOrDigit character ∨ punctuation then
          if index = 0 ∧ punctuation then some s!"{field} must start with a letter or digit"
          else scan (index + 1) rest
        else some s!"{field} contains unsupported character {character.quote}"
    scan 0 value.toList

/-- `ActionForCapability`. -/
def actionForCapability (operation : Operation) (capability : CapabilityID) :
    Except String Action :=
  match operation with
  | .subscribe | .unsubscribe => .ok (if capability = "" then "subscribe" else capability)
  | .operate | .sessionOpen | .sessionData | .sessionClose =>
    match validateExtensibleIdentifier os "capability" capability with
    | some err => .error err
    | none => .ok capability
  | _ => .error s!"operation {operation.ctorIdx + 1} does not require resource authorization"

/-- `AuthorizeRequest`; the granted request on success. -/
def authorizeRequest (policy : Policy) (e : Envelope) : Except String Request :=
  if e.phase ≠ .request then .error "only request phase can be adjudicated"
  else
    match actionForCapability os e.operation e.capability with
    | .error err => .error err
    | .ok action =>
      let request : Request := ⟨e.subject, action, e.capability, e.resource⟩
      match policy.authorize request with
      | some err => .error err
      | none => .ok request

/-- `PromoteControl`. -/
def promoteControl (e : Envelope) (childEpoch : UInt64) : Except String Envelope :=
  if e.phase ≠ .request ∧ e.phase ≠ .control then
    .error "only request or control can be routed downward"
  else if childEpoch = 0 then .error "child epoch is required"
  else .ok { e with phase := .control, topologyEpoch := childEpoch }

/-- `ValidateInboundChild`; `none` is acceptance. -/
def validateInboundChild (t : TreeState) (child : NodeID) (childEpoch : UInt64) (e : Envelope) :
    Option InboundError :=
  if e.phase = .control then some (.forbidden "child cannot originate control")
  else if e.principal ≠ 0 then
    some (.forbidden "child cannot originate a delegated principal")
  else (t.validateSource child e.source childEpoch).map .tree

/-- `ValidateInboundParent`; `none` is acceptance. -/
def validateInboundParent (t : TreeState) (parent : NodeID) (e : Envelope) :
    Option InboundError :=
  if e.phase = .control then (t.validateParentControl parent e.topologyEpoch).map .tree
  else if e.principal ≠ 0 then
    some (.forbidden "unadjudicated parent request cannot delegate a principal")
  else if e.phase = .request ∧ e.source ≠ parent then
    some (.forbidden "unadjudicated parent request cannot represent another subject")
  else none

/-! ### What an accepted envelope satisfies -/

section Accepted

variable {os} {e : Envelope}

theorem authorizeRequest_eq_ok {policy : Policy} {r : Request}
    (h : authorizeRequest os policy e = .ok r) :
    e.phase = .request ∧ policy.authorize r = none ∧ r.subject = e.subject ∧
      r.capability = e.capability ∧ r.resource = e.resource ∧
      actionForCapability os e.operation e.capability = .ok r.action := by
  unfold authorizeRequest at h
  split_ifs at h with hphase
  split at h
  · cases h
  · next action haction =>
    dsimp only at h
    split at h
    · cases h
    · next hallowed =>
      cases h
      exact ⟨not_not.mp hphase, hallowed, rfl, rfl, rfl, haction⟩

theorem promoteControl_eq_ok {e' : Envelope} {epoch : UInt64}
    (h : promoteControl e epoch = .ok e') :
    e'.phase = .control ∧ e'.Same e := by
  unfold promoteControl at h
  split_ifs at h
  cases h
  exact ⟨rfl, rfl, rfl, rfl, rfl, rfl⟩

variable {t : TreeState}

theorem subject_ne_of_child (hwf : WellFormed t) {child : NodeID} {epoch : UInt64}
    (h : validateInboundChild t child epoch e = none) :
    e.phase ≠ .control ∧ e.subject ≠ t.localNode := by
  -- a child speaks for itself or for what is routed through it, never for the node
  unfold validateInboundChild at h
  split_ifs at h with hcontrol hprincipal
  refine ⟨hcontrol, ?_⟩
  have hsubject : e.subject = e.source := if_neg hprincipal
  rw [hsubject]
  have hsource := Option.map_eq_none_iff.mp h
  unfold validateSource at hsource
  split at hsource
  · cases hsource
  · next edge hedge =>
    split_ifs at hsource with hepoch hvia
    have hchild := (hwf.routed (hwf.child hedge).2.2)
    rcases hvia with hself | hrouted
    · rw [hself]
      exact hchild.2.1
    · exact (hwf.routed ((WellFormed.routeOf_eq_iff hchild.1).mp hrouted)).2.1

theorem parent_of_control {parent : NodeID} (h : validateInboundParent t parent e = none)
    (hcontrol : e.phase = .control) : ∃ epoch, t.parent = some ⟨parent, epoch⟩ := by
  rw [validateInboundParent, if_pos hcontrol] at h
  have hparent := Option.map_eq_none_iff.mp h
  unfold validateParentControl at hparent
  split at hparent
  · cases hparent
  · next edge hedge =>
    split_ifs at hparent with hnode
    rw [← not_not.mp hnode]
    exact ⟨edge.epoch, hedge⟩

theorem subject_of_parent {parent : NodeID} (h : validateInboundParent t parent e = none)
    (hrequest : e.phase = .request) : e.subject = parent := by
  have hcontrol : e.phase ≠ .control := by
    rw [hrequest]
    simp
  unfold validateInboundParent at h
  rw [if_neg hcontrol] at h
  split_ifs at h with hprincipal hsource
  have hsubject : e.subject = e.source := if_neg hprincipal
  rw [hsubject]
  by_contra hne
  exact hsource ⟨hrequest, hne⟩

end Accepted

end Auth
