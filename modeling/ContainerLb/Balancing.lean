import Mathlib.Data.List.Basic

/-!
# One address served by several hosts

A service hides its members behind one address. A request for that address is
sent on to one member, and what a member sends back gets the address of the
service as its source. Then a client cannot tell the members from one host
that has the address itself. Without an address of its own the service takes
requests for any destination, and answers keep their source.
-/

namespace ContainerLb.Balancing

variable {Addr Link Content : Type*}

/-- A message between hosts of one segment. -/
@[ext]
structure Message (Addr Link Content : Type*) where
  /-- Next hop. -/
  dstLink : Link
  /-- Previous hop. -/
  srcLink : Link
  /-- Sender. -/
  src : Addr
  /-- Receiver. -/
  dst : Addr
  /-- What no hop changes. -/
  content : Content
  deriving DecidableEq

namespace Message

/-- Send on to a host from a gateway. -/
def redirect (m : Message Addr Link Content) (gateway : Link) (host : Addr×Link) :
    Message Addr Link Content :=
  {m with dstLink := host.2,srcLink := gateway,dst := host.1}

/-- What the receiver sends back. -/
def answered (m : Message Addr Link Content) (answer : Content → Content) :
    Message Addr Link Content :=
  ⟨m.srcLink,m.dstLink,m.dst,m.src,answer m.content⟩

/-- What the receiver learns from a message: all but the hops. -/
def seen (m : Message Addr Link Content) : Addr×Addr×Content := (m.src,m.dst,m.content)

end Message

/-- A service and its members. -/
structure Service (Addr Link : Type*) where
  /-- Address of the service, absent to take every destination. -/
  vip : Option Addr
  /-- Previous hop of what is sent on. -/
  gateway : Link
  /-- Addresses and hops of the members. -/
  members : List (Addr×Link)
  deriving DecidableEq

namespace Service

variable (service : Service Addr Link) (balances : Content → Prop)

/-- A request for the service with a content that it balances. -/
def Accepts (m : Message Addr Link Content) : Prop :=
  balances m.content ∧ ∀ vip∈service.vip,m.dst=vip

/-- The member for a random number. -/
def pick (draw : ℕ) : Option (Addr×Link) := service.members[draw%service.members.length]?

variable [DecidableEq Addr] [DecidablePred balances]

instance (m : Message Addr Link Content) : Decidable (service.Accepts balances m) :=
  inferInstanceAs (Decidable (_ ∧ ∀ vip∈service.vip,m.dst=vip))

/-- Requests go to the picked member. -/
def forward (draw : ℕ) (m : Message Addr Link Content) : Message Addr Link Content :=
  if service.Accepts balances m then
    match service.pick draw with
    | none => m
    | some member => m.redirect service.gateway member
  else m

/-- What a member sends comes from the service. -/
def back (m : Message Addr Link Content) : Message Addr Link Content :=
  match service.vip with
  | none => m
  | some vip =>
    if balances m.content ∧ m.src∈service.members.map Prod.fst then {m with src := vip} else m

variable {service balances}

/-- A request goes to a member. -/
theorem forward_of_accepts {draw : ℕ} {m : Message Addr Link Content} {member : Addr×Link}
    (h : service.Accepts balances m) (hpick : service.pick draw=some member) :
    service.forward balances draw m=m.redirect service.gateway member := by
  rw [forward,if_pos h,hpick]

/-- The address of the service hides its members. Whatever the picked member
answers, the client sees it as if the host at that address had answered. -/
theorem seen_back {vip : Addr} {draw : ℕ} {m : Message Addr Link Content} {member : Addr×Link}
    {answer : Content → Content} (hvip : service.vip=some vip) (h : service.Accepts balances m)
    (hmember : member∈service.members) (hpick : service.pick draw=some member)
    (hanswer : balances (answer m.content)) :
    (service.back balances ((service.forward balances draw m).answered answer)).seen=
      (m.answered answer).seen := by
  have hfrom : member.1∈service.members.map Prod.fst := List.mem_map_of_mem hmember
  rw [forward_of_accepts h hpick,back,hvip]
  simp [Message.redirect,Message.answered,Message.seen,hanswer,hfrom,h.2 vip hvip]

/-- A message for another destination is left alone, so an answer to a client
is not balanced again. -/
theorem forward_other {vip : Addr} {m : Message Addr Link Content} (hvip : service.vip=some vip)
    (hdst : m.dst≠vip) (draw : ℕ) : service.forward balances draw m=m :=
  if_neg fun h => hdst (h.2 vip hvip)

end Service

end ContainerLb.Balancing
