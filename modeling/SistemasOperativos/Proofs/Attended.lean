import SistemasOperativos.System.Connections

/-!
# Requests of the CPU and their answers

The CPU makes its requests on the connection of the handshake, which no thread of the memory
module reads any more, and its own threads receive on the dispatch connections only.  The first
request stays unread and the CPU waits for ever.
-/

namespace SistemasOperativos
namespace Connections

variable {Swap : Type} {cfg : MemoryConfig} {host : Host} {store : SwapStore Swap} {swap : Swap}
  {s s' : Connections Swap} {action : ConnectionAction}

/-- `execThread` waits on a semaphore for the answer to a request. -/
def Blocked (s : Connections Swap) (wait : CpuWait) (request : Message) : Prop :=
  s.exec = .waiting wait request ∧ s.posts wait = 0

/-- `memory_handshake` receives on the connection to the memory module. -/
def InHandshake (s : Connections Swap) : Prop :=
  s.handshake = .requested ∨ s.handshake = .answered

/-- The request is unread on a connection that some thread of the memory module serves, or it is
handled there, or the answer is on a connection that some thread of the CPU receives from. -/
def Attended (s : Connections Swap) (wait : CpuWait) (request : Message) : Prop :=
  (∃ name link, s.link name = some link ∧ link.serve = true ∧
    (request ∈ link.requests ∨ link.handling = some request)) ∨
  ∃ answer : MemoryAnswer, answer.posts = some wait ∧
    (s.InHandshake ∧ answer ∈ s.cpu.answers ∨
      ∃ dispatch ∈ s.dispatches, dispatch.serve = true ∧ .answer answer ∈ dispatch.packets)

/-- What the CPU waits for is attended to. -/
def WaitsAttended (s : Connections Swap) : Prop :=
  ∀ wait request, s.Blocked wait request → s.Attended wait request

/-- Only requests of the kernel are on a connection. -/
def Link.FromKernel (link : Link) : Prop :=
  (∀ message ∈ link.requests, message.ofKernel = true) ∧
  ∀ message, link.handling = some message → message.ofKernel = true

/-- Each connection has the packets of its own peer, and the CPU has not gone past its first
request. -/
structure Apart (s : Connections Swap) : Prop where
  listening : s.cpu.serve = true → s.handshake = .connected ∨ s.handshake = .requested
  cpu : s.cpu.handling = none ∧ (s.handshake ≠ .done → s.cpu.requests = [])
  peers : ∀ link ∈ s.peers, Link.FromKernel link
  dispatches : ∀ dispatch ∈ s.dispatches, ∀ packet ∈ dispatch.packets, packet = .pcbToCpu
  posts : ∀ wait, s.posts wait = 0
  exec : s.exec = .idle ∧ s.sent = [] ∨
    s.handshake = .done ∧ ∃ wait request, s.exec = .waiting wait request ∧ s.sent = [request] ∧
      request.ofKernel = false

theorem fromKernel_set {links : List Link} {n : ℕ} {link : Link}
    (hlinks : ∀ link ∈ links, Link.FromKernel link) (hlink : Link.FromKernel link) :
    ∀ other ∈ links.set n link, Link.FromKernel other := by
  intro other hother
  rcases List.mem_or_eq_of_mem_set hother with hmem | rfl
  · exact hlinks other hmem
  · exact hlink

/-- The requests go out on a connection that has no other. -/
theorem request_apart {wait : CpuWait} {message : Message} (hs : s.Apart)
    (hdone : s.handshake = .done) (hidle : s.exec = .idle) (hmessage : message.ofKernel = false) :
    (s.request wait message).Apart := by
  have hsent : s.sent = [] := by
    rcases hs.exec with ⟨-, hsent⟩ | ⟨-, wait', request, hwaiting, -⟩
    · exact hsent
    · simp [hidle] at hwaiting
  exact {
    listening := hs.listening
    cpu := ⟨hs.cpu.1, fun h => absurd hdone h⟩
    peers := hs.peers
    dispatches := hs.dispatches
    posts := hs.posts
    exec := .inr ⟨hdone, wait, message, rfl, by simp [request, hsent], hmessage⟩ }

/-- A thread of the memory module finds requests of the kernel only. -/
theorem read_apart {name : LinkName} (hs : s.Apart) (h : s.read name = some s') : s'.Apart := by
  unfold read at h
  split at h
  · rename_i message rest answers hlink
    cases h
    cases name with
    | cpu =>
        -- the thread of the CPU's connection ends before the first request
        obtain ⟨hrequests, hserve⟩ : s.cpu.requests = message :: rest ∧ s.cpu.serve = true := by
          have hcpu := Option.some.inj hlink
          exact ⟨congrArg Link.requests hcpu, congrArg Link.serve hcpu⟩
        rcases hs.listening hserve with hhandshake | hhandshake <;>
        · have := hs.cpu.2 (by simp [hhandshake])
          simp [hrequests] at this
    | peer n =>
        have hmem : _ ∈ s.peers := List.mem_of_getElem? hlink
        obtain ⟨hrequests, -⟩ := hs.peers _ hmem
        exact { hs with
          peers := fromKernel_set hs.peers ⟨fun other hother =>
            hrequests other (List.mem_cons_of_mem _ hother), fun other hother =>
            Option.some.inj hother ▸ hrequests message List.mem_cons_self⟩ }
  · cases h

theorem handle_apart {name : LinkName} {heap : Bytes} {found : Option ℕ} (hs : s.Apart)
    (h : s.handle cfg host store name heap found = some s') : s'.Apart := by
  unfold handle at h
  split at h
  · rename_i requests message answers hlink
    simp only [Option.bind_eq_bind, Option.bind_eq_some_iff, Option.pure_def, Option.some.injEq] at h
    obtain ⟨⟨taken, offset⟩, -, action, -, ⟨memory, answer⟩, -, rfl⟩ := h
    cases name with
    | cpu =>
        have hhandling := congrArg Link.handling (Option.some.inj hlink)
        simp [hs.cpu.1] at hhandling
    | peer n =>
        have hmem : _ ∈ s.peers := List.mem_of_getElem? hlink
        obtain ⟨hrequests, -⟩ := hs.peers _ hmem
        exact { hs with
          peers := fromKernel_set hs.peers ⟨hrequests, fun other hother => nomatch hother⟩ }
  · cases h

/-- A thread of the CPU receives PCBs only. -/
theorem receive_apart {n : ℕ} (hs : s.Apart) (h : s.receive n = some s') : s'.Apart := by
  unfold receive at h
  split at h
  · rename_i packet rest hdispatch
    have hmem : _ ∈ s.dispatches := List.mem_of_getElem? hdispatch
    have hpackets := hs.dispatches _ hmem
    obtain rfl := hpackets packet List.mem_cons_self
    cases h
    exact { hs with
      dispatches := fun dispatch hdispatch => by
        rcases List.mem_or_eq_of_mem_set hdispatch with hmem | rfl
        · exact hs.dispatches dispatch hmem
        · exact fun packet hpacket => hpackets packet (List.mem_cons_of_mem _ hpacket) }
  · cases h

theorem step_apart (hs : s.Apart) (h : step cfg host store action s = some s') : s'.Apart := by
  cases action with
  | handshakeHeader =>
      simp only [step, Option.ite_none_right_eq_some, Option.some.injEq] at h
      obtain ⟨hconnected, rfl⟩ := h
      exact { hs with
        listening := fun _ => .inr rfl
        cpu := ⟨hs.cpu.1, fun _ => hs.cpu.2 (by simp [hconnected])⟩
        exec := hs.exec.imp_right fun ⟨hdone, _⟩ => by simp [hconnected] at hdone }
  | cpuHandshake =>
      simp only [step, Option.ite_none_right_eq_some, Option.some.injEq] at h
      obtain ⟨⟨hrequested, -⟩, rfl⟩ := h
      exact { hs with
        listening := fun hserve => nomatch hserve
        cpu := ⟨hs.cpu.1, fun _ => hs.cpu.2 (by simp [hrequested])⟩
        exec := hs.exec.imp_right fun ⟨hdone, _⟩ => by simp [hrequested] at hdone }
  | tableInfo =>
      simp only [step, Option.ite_none_right_eq_some, Option.some.injEq] at h
      obtain ⟨hanswered, rfl⟩ := h
      exact { hs with
        listening := fun hserve => by
          rcases hs.listening hserve with h | h <;> simp [hanswered] at h
        cpu := ⟨hs.cpu.1, fun hne => absurd rfl hne⟩
        exec := hs.exec.imp_right fun ⟨hdone, _⟩ => by simp [hanswered] at hdone }
  | accept =>
      simp only [step, Option.ite_none_left_eq_some, Option.some.injEq] at h
      obtain ⟨-, rfl⟩ := h
      exact { hs with
        peers := fun link hlink => by
          rcases List.mem_append.1 hlink with hmem | hmem
          · exact hs.peers link hmem
          · obtain rfl := List.mem_singleton.1 hmem
            exact ⟨fun _ h => (nomatch h), fun _ h => nomatch h⟩ }
  | acceptDispatch =>
      simp only [step, Option.ite_none_right_eq_some, Option.some.injEq] at h
      obtain ⟨-, rfl⟩ := h
      exact { hs with
        dispatches := fun dispatch hdispatch => by
          rcases List.mem_append.1 hdispatch with hmem | hmem
          · exact hs.dispatches dispatch hmem
          · obtain rfl := List.mem_singleton.1 hmem
            exact fun _ h => nomatch h }
  | kernelRequest n message =>
      simp only [step, Option.ite_none_right_eq_some, Option.map_eq_some_iff] at h
      obtain ⟨hmessage, link, hlink, rfl⟩ := h
      obtain ⟨hrequests, hhandling⟩ := hs.peers link (List.mem_of_getElem? hlink)
      refine { hs with peers := fromKernel_set hs.peers ⟨fun other hother => ?_, hhandling⟩ }
      rcases List.mem_append.1 hother with hmem | hmem
      · exact hrequests other hmem
      · exact List.mem_singleton.1 hmem ▸ hmessage
  | kernelReceive n =>
      simp only [step, Option.map_eq_some_iff] at h
      obtain ⟨link, hlink, rfl⟩ := h
      exact { hs with peers := fromKernel_set hs.peers (hs.peers link (List.mem_of_getElem? hlink)) }
  | pcbToCpu n =>
      simp only [step, Option.map_eq_some_iff] at h
      obtain ⟨link, hlink, rfl⟩ := h
      have hpackets := hs.dispatches link (List.mem_of_getElem? hlink)
      refine { hs with dispatches := fun dispatch hdispatch => ?_ }
      rcases List.mem_or_eq_of_mem_set hdispatch with hmem | rfl
      · exact hs.dispatches dispatch hmem
      · intro packet hpacket
        rcases List.mem_append.1 hpacket with hmem | hmem
        · exact hpackets packet hmem
        · exact List.mem_singleton.1 hmem
  | read name => exact read_apart hs h
  | handle name heap found => exact handle_apart hs h
  | receive n => exact receive_apart hs h
  | mmu ptIndex fstLevelEntry =>
      simp only [step, Option.ite_none_right_eq_some, Option.some.injEq] at h
      obtain ⟨⟨hdone, hidle⟩, rfl⟩ := h
      exact request_apart hs hdone hidle rfl
  | mmuSecond pid scdLevelEntry framesIndex =>
      -- the answer to the first packet never comes
      simp only [step, Option.ite_none_right_eq_some, Option.some.injEq] at h
      rcases hs.exec with ⟨hidle, -⟩ | ⟨-, wait, request, hwaiting, -⟩
      · simp [hidle] at h
      · simp [hwaiting] at h
  | readMem fisicDir =>
      simp only [step, Option.ite_none_right_eq_some, Option.some.injEq] at h
      obtain ⟨⟨hdone, hidle⟩, rfl⟩ := h
      exact request_apart hs hdone hidle rfl
  | writeMem fisicDir value =>
      simp only [step, Option.ite_none_right_eq_some, Option.some.injEq] at h
      obtain ⟨⟨hdone, hidle⟩, rfl⟩ := h
      exact request_apart hs hdone hidle rfl
  | wake =>
      simp only [step] at h
      split at h
      · simp [hs.posts] at h
      · cases h

theorem apart_reachable (hs : (connections cfg host store swap).Reachable s) : s.Apart := by
  refine hs.invariant ?initial ?step
  case initial =>
    exact {
      listening := fun _ => .inl rfl
      cpu := ⟨rfl, fun _ => rfl⟩
      peers := fun _ h => nomatch h
      dispatches := fun _ h => nomatch h
      posts := fun _ => rfl
      exec := .inl ⟨rfl, rfl⟩ }
  case step => exact fun _ _ _ _ hs h => step_apart hs h

/-- Nobody reads the request the CPU has made, and nobody has answered it. -/
theorem Apart.not_attended (hs : s.Apart) {wait : CpuWait} {request : Message}
    (hdone : s.handshake = .done) (hrequest : request.ofKernel = false) :
    ¬ s.Attended wait request := by
  rintro (⟨name, link, hlink, hserve, hmem⟩ | ⟨answer, hposts, ⟨hhandshake, -⟩ | ⟨dispatch,
    hdispatch, -, hpacket⟩⟩)
  · cases name with
    | cpu =>
        obtain rfl := Option.some.inj hlink
        rcases hs.listening hserve with h | h <;> simp [hdone] at h
    | peer n =>
        obtain ⟨hrequests, hhandling⟩ := hs.peers link (List.mem_of_getElem? hlink)
        have hkernel := hmem.elim (hrequests request) (hhandling request)
        simp [hrequest] at hkernel
  · simp [InHandshake, hdone] at hhandshake
  · exact nomatch hs.dispatches dispatch hdispatch _ hpacket

theorem Apart.waitsAttended_iff (hs : s.Apart) : s.WaitsAttended ↔ s.sent = [] := by
  rcases hs.exec with ⟨hidle, hsent⟩ | ⟨hdone, wait, request, hwaiting, hsent, hrequest⟩
  · refine iff_of_true (fun wait request hblocked => ?_) hsent
    simp [Blocked, hidle] at hblocked
  · refine iff_of_false (fun h => ?_) (by simp [hsent])
    exact hs.not_attended hdone hrequest (h wait request ⟨hwaiting, hs.posts wait⟩)

/-- In every reachable state, what the CPU waits for is attended to exactly when it has made no
request yet. -/
theorem waitsAttended_iff_sent (hs : (connections cfg host store swap).Reachable s) :
    s.WaitsAttended ↔ s.sent = [] :=
  (apart_reachable hs).waitsAttended_iff

/-- The module with small parameters. -/
def small : Machine (Connections (Word → ℕ → Bytes)) ConnectionAction :=
  connections (.small 1) .direct (pageStore (.small 1)) fun _ _ => []

/-- After the handshake, with a connection to the kernel in each program. -/
theorem waitsAttended_small : ∃ s, small.Reachable s ∧ s.handshake = .done ∧
    s.peers.length = 1 ∧ s.dispatches.length = 1 ∧ s.WaitsAttended := by
  obtain ⟨s, hs, htest⟩ := Machine.exists_reachable_of_run small
    [.handshakeHeader, .cpuHandshake, .accept, .tableInfo, .acceptDispatch,
      .kernelRequest 0 (.processNew 1 64), .read (.peer 0)]
    (fun s => s.handshake = .done ∧ s.peers.length = 1 ∧ s.dispatches.length = 1 ∧ s.sent = [])
    (by decide +kernel)
  obtain ⟨hdone, hpeers, hdispatches, hsent⟩ := of_decide_eq_true htest
  exact ⟨s, hs, hdone, hpeers, hdispatches, (waitsAttended_iff_sent hs).2 hsent⟩

/-- `readMem` right after the handshake. -/
theorem not_waitsAttended : ∃ s, small.Reachable s ∧ s.handshake = .done ∧
    s.Blocked .waitingReadAnswer (.readCall 4) ∧
    ¬ s.Attended .waitingReadAnswer (.readCall 4) := by
  obtain ⟨s, hs, htest⟩ := Machine.exists_reachable_of_run small
    [.handshakeHeader, .cpuHandshake, .accept, .tableInfo, .acceptDispatch, .pcbToCpu 0,
      .receive 0, .readMem 4]
    (fun s => s.handshake = .done ∧ s.exec = .waiting .waitingReadAnswer (.readCall 4) ∧
      s.posts .waitingReadAnswer = 0)
    (by decide +kernel)
  obtain ⟨hdone, hexec, hposts⟩ := of_decide_eq_true htest
  exact ⟨s, hs, hdone, ⟨hexec, hposts⟩, (apart_reachable hs).not_attended hdone rfl⟩

end Connections
end SistemasOperativos
