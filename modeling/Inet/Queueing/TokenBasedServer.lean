import Mathlib.Data.Rat.Defs
import Inet.Queueing.PacketScheduler

/-!
# A server that pays for packets

The server looks at the packet that a scheduler would give next, and pulls one if it has the tokens
that are required for the packet it has seen.
-/
namespace Inet

open Lib

structure TokenBasedServer (S P : Type) (n : Nat) where
  provider : PacketSchedulerBase S P n
  numTokens : Rat
  maxNumTokens : Option Rat
  /-- The packets that tokens were required for, and the packets that were served. -/
  processed : List (P × P) := []

namespace TokenBasedServer

variable {S P : Type} {n : Nat} (schedulePacket : PacketSchedulerBase S P n → Int × S)
  (numRequiredTokens : P → Int)

/-- One round of the loop of `processPackets`, and nothing when that ends. -/
def processPacket (server : TokenBasedServer S P n) :
    Except String (Option (TokenBasedServer S P n)) :=
  match server.provider.canPullPacket with
  | none => return none
  | some packet =>
    if numRequiredTokens packet ≤ server.numTokens then do
      let (served, provider) ← server.provider.pullPacket schedulePacket
      return some { server with
        provider, numTokens := server.numTokens - numRequiredTokens packet
        processed := server.processed ++ [(packet, served)] }
    else return none

/-- Tokens arrive. They are used up by `processPackets` next. -/
def withTokens (tokens : Rat) (server : TokenBasedServer S P n) : TokenBasedServer S P n :=
  let numTokens := server.numTokens + tokens
  match server.maxNumTokens with
  | none => { server with numTokens }
  | some max => { server with numTokens := if max ≤ numTokens then max else numTokens }

/-- The servers of runs in which packets are pulled from the schedulers that are allowed. -/
inductive Reachable [DecidableEq P] (allowed : PacketSchedulerBase S P n → Prop) :
    TokenBasedServer S P n → Prop
  | start {server : TokenBasedServer S P n} (idle : server.provider.Idle)
    (none : server.processed = []) : Reachable allowed server
  | call {server : TokenBasedServer S P n} (call : PacketSchedulerBase.Call P n)
    {answer : PacketSchedulerBase.Answer P} {provider : PacketSchedulerBase S P n}
    (before : Reachable allowed server) (allows : call = .pullPacket → allowed server.provider)
    (handled : server.provider.handle schedulePacket call = .ok (answer, provider)) :
    Reachable allowed { server with provider }
  | addTokens {server : TokenBasedServer S P n} (tokens : Rat) (before : Reachable allowed server) :
    Reachable allowed (server.withTokens tokens)
  | round {server next : TokenBasedServer S P n} (before : Reachable allowed server)
    (allows : allowed server.provider)
    (processed : server.processPacket schedulePacket numRequiredTokens = .ok (some next)) :
    Reachable allowed next

/-- Each packet is served for the tokens that it requires. -/
def Honest (server : TokenBasedServer S P n) : Prop :=
  ∀ pair ∈ server.processed, pair.1 = pair.2

/-- Looking changes nothing, finds a packet if there is one, and finds the packet that is given and
paid for if and only if a condition holds. -/
structure Announces [DecidableEq P] (server : TokenBasedServer S P n) (condition : Prop) :
    Prop where
  canPullSomePacket : server.provider.handle schedulePacket .canPullSomePacket =
    .ok (.some server.provider.canPullSomePacket, server.provider)
  canPullPacket : server.provider.handle schedulePacket .canPullPacket =
    .ok (.packet server.provider.canPullPacket, server.provider)
  nothing : server.provider.canPullPacket = none ↔ server.provider.canPullSomePacket = false
  delivers : server.provider.Delivers schedulePacket ↔ condition
  charges : (∀ packet, server.provider.canPullPacket = some packet →
    numRequiredTokens packet ≤ server.numTokens →
    ∃ next, server.processPacket schedulePacket numRequiredTokens = .ok (some next) ∧
      next.processed = server.processed ++ [(packet, packet)]) ↔
    ∀ packet, server.provider.canPullPacket = some packet →
      numRequiredTokens packet ≤ server.numTokens → condition

/-! ### Rounds -/

variable {schedulePacket numRequiredTokens} {server next : TokenBasedServer S P n}

theorem processPacket_eq {packet : P} (announced : server.provider.canPullPacket = some packet)
    (tokens : numRequiredTokens packet ≤ server.numTokens) :
    server.processPacket schedulePacket numRequiredTokens =
      (server.provider.pullPacket schedulePacket >>= fun pulled => .ok (some { server with
        provider := pulled.2, numTokens := server.numTokens - numRequiredTokens packet
        processed := server.processed ++ [(packet, pulled.1)] })) := by
  unfold processPacket
  rw [announced]
  dsimp only
  rw [if_pos tokens]
  rfl

/-- What a round does. -/
theorem processPacket_eq_some
    (processed : server.processPacket schedulePacket numRequiredTokens = .ok (some next)) :
    ∃ packet served provider, server.provider.canPullPacket = some packet ∧
      server.provider.pullPacket schedulePacket = .ok (served, provider) ∧
      next = { server with
        provider, numTokens := server.numTokens - numRequiredTokens packet
        processed := server.processed ++ [(packet, served)] } := by
  cases announced : server.provider.canPullPacket with
  | none =>
    unfold processPacket at processed
    rw [announced] at processed
    cases processed
  | some packet =>
    by_cases tokens : numRequiredTokens packet ≤ server.numTokens
    · rw [processPacket_eq announced tokens] at processed
      obtain ⟨⟨served, provider⟩, pulled, same⟩ := bind_eq_ok.mp processed
      cases same
      exact ⟨packet, served, provider, rfl, pulled, rfl⟩
    · unfold processPacket at processed
      rw [announced] at processed
      dsimp only at processed
      rw [if_neg tokens] at processed
      cases processed

theorem announces [DecidableEq P] {condition : Prop}
    (delivers : server.provider.Delivers schedulePacket ↔ condition) :
    server.Announces schedulePacket numRequiredTokens condition := by
  refine ⟨rfl, rfl, PacketSchedulerBase.canPullPacket_eq_none, delivers, ?_⟩
  rw [← delivers]
  constructor
  · intro charges packet announced tokens packet' announced'
    obtain ⟨next, processed, charged⟩ := charges packet announced tokens
    obtain ⟨_, served, provider, _, pulled, rfl⟩ := processPacket_eq_some processed
    have same := (List.cons.inj (List.append_cancel_left charged)).1
    obtain ⟨_, rfl⟩ := Prod.mk.inj same
    obtain rfl := Option.some.inj (announced.symm.trans announced')
    exact ⟨provider, pulled⟩
  · intro delivers packet announced tokens
    obtain ⟨provider, pulled⟩ := delivers packet announced tokens packet announced
    refine ⟨{ server with
      provider, numTokens := server.numTokens - numRequiredTokens packet
      processed := server.processed ++ [(packet, packet)] }, ?_, rfl⟩
    rw [processPacket_eq announced tokens, pulled, ok_bind]

/-! ### Runs -/

variable [DecidableEq P] {allowed : PacketSchedulerBase S P n → Prop}

/-- No packet is on its way when packets are pulled as a whole. -/
theorem Reachable.idle (reachable : server.Reachable schedulePacket numRequiredTokens allowed) :
    server.provider.Idle := by
  induction reachable with
  | start idle _ => exact idle
  | call call _ _ handled idle =>
    cases call with
    | canPullSomePacket =>
      cases handled
      exact idle
    | canPullPacket =>
      cases handled
      exact idle
    | pullPacket =>
      obtain ⟨⟨_, _⟩, pulled, same⟩ := bind_eq_ok.mp handled
      cases same
      obtain ⟨_, _, _, rfl⟩ := (PacketSchedulerBase.pullPacket_eq_ok idle).mp pulled
      exact ⟨idle.stream, idle.gate⟩
    | arrive =>
      cases handled
      exact ⟨idle.stream, idle.gate⟩
  | addTokens tokens _ idle =>
    unfold withTokens
    dsimp only
    split <;> exact idle
  | round _ _ processed idle =>
    obtain ⟨_, _, _, _, pulled, rfl⟩ := processPacket_eq_some processed
    obtain ⟨_, _, _, rfl⟩ := (PacketSchedulerBase.pullPacket_eq_ok idle).mp pulled
    exact ⟨idle.stream, idle.gate⟩

omit [DecidableEq P] in
theorem Honest.withTokens (honest : server.Honest) (tokens : Rat) :
    (server.withTokens tokens).Honest := by
  unfold TokenBasedServer.withTokens
  dsimp only
  split <;> exact honest

/-- A server whose scheduler gives what it says it would give is honest. -/
theorem Reachable.honest (reachable : server.Reachable schedulePacket numRequiredTokens allowed)
    (delivers : ∀ scheduler : PacketSchedulerBase S P n, scheduler.Idle → allowed scheduler →
      scheduler.Delivers schedulePacket) : server.Honest := by
  induction reachable with
  | start _ none =>
    intro pair member
    rw [none] at member
    cases member
  | call _ _ _ _ honest => exact honest
  | addTokens tokens _ honest => exact honest.withTokens tokens
  | round before allows processed honest =>
    obtain ⟨packet, served, provider, announced, pulled, rfl⟩ := processPacket_eq_some processed
    obtain ⟨_, pulled'⟩ := delivers _ before.idle allows packet announced
    obtain ⟨rfl, _⟩ := Prod.mk.inj (Except.ok.inj (pulled.symm.trans pulled'))
    intro pair member
    rcases List.mem_append.mp member with member | member
    · exact honest pair member
    · rw [List.mem_singleton.mp member]

/-- Looking at packets changes no scheduler. A priority scheduler gives the packet it says it would
give if and only if its inputs are ordered, and a weighted one if and only if the first input is
served; a server with such schedulers is honest. -/
theorem announces_iff (numRequiredTokens : P → Int) :
    (∀ server : TokenBasedServer Unit P n,
      server.Reachable PriorityScheduler.schedulePacket numRequiredTokens (fun _ => True) →
      server.Announces PriorityScheduler.schedulePacket numRequiredTokens
        (PriorityScheduler.Ordered server.provider)) ∧
    (∀ server : TokenBasedServer (WrrScheduler n) P n,
      server.Reachable WrrScheduler.schedulePacket numRequiredTokens (fun _ => True) →
      server.Announces WrrScheduler.schedulePacket numRequiredTokens
        (WrrScheduler.Served server.provider)) ∧
    (∀ server : TokenBasedServer Unit P n,
      server.Reachable PriorityScheduler.schedulePacket numRequiredTokens
        PriorityScheduler.Ordered → server.Honest) ∧
    ∀ server : TokenBasedServer (WrrScheduler n) P n,
      server.Reachable WrrScheduler.schedulePacket numRequiredTokens WrrScheduler.Served →
      server.Honest :=
  ⟨fun _ reachable => announces (PriorityScheduler.delivers_iff reachable.idle),
    fun _ reachable => announces (WrrScheduler.delivers_iff reachable.idle),
    fun _ reachable => reachable.honest fun _ idle => (PriorityScheduler.delivers_iff idle).mpr,
    fun _ reachable => reachable.honest fun _ idle => (WrrScheduler.delivers_iff idle).mpr⟩

/-! ### A scheduler in reverse order -/

/-- A packet waits at each of two inputs. -/
def twoInputs : Inputs Nat 2 where
  packets i := [i]
  apart first second := Fin.ext ((List.mem_singleton.mp first).symm.trans
    (List.mem_singleton.mp second))

def twoPriorities (reverseOrder : Bool) : TokenBasedServer Unit Nat 2 where
  provider := { reverseOrder, inputs := twoInputs, state := () }
  numTokens := 1
  maxNumTokens := none

theorem twoPriorities_announces :
    (twoPriorities false).Announces PriorityScheduler.schedulePacket (fun _ => 1)
      (PriorityScheduler.Ordered (twoPriorities false).provider) :=
  (announces_iff fun _ => 1).1 (twoPriorities false) (.start ⟨rfl, rfl⟩ rfl)

/-- The last packet is given where the first one is announced. -/
theorem twoPriorities_reverse : ¬∀ server : TokenBasedServer Unit Nat 2,
    server.Reachable PriorityScheduler.schedulePacket (fun _ => 1) (fun _ => True) →
    server.provider.Delivers PriorityScheduler.schedulePacket := by
  intro all
  obtain ⟨next, pulled⟩ := all (twoPriorities true) (.start ⟨rfl, rfl⟩ rfl) 0 rfl
  have given : (twoPriorities true).provider.pullPacket PriorityScheduler.schedulePacket =
      .ok (1, { (twoPriorities true).provider with inputs := twoInputs.removeFirst 1 }) := rfl
  exact absurd (Prod.mk.inj (Except.ok.inj (pulled.symm.trans given))).1 (by decide)

end TokenBasedServer

end Inet
