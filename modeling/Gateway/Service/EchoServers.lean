import Gateway.Service.EpollServer
import Gateway.Service.PoolServer
import Gateway.Service.PollingServer

/-!
# The five echo servers

However a server waits for its clients, what it does to their descriptors is one and the same
service.
-/

namespace Gateway.Service
open Steps

/-- What a server of phase 3, 4, 6, 7 or 8 has done to its client descriptors. -/
inductive Served : Sockets → Prop
  | threads {serverFd : ℤ} {acts : List ThreadAct} {s : ThreadServer}
      (hrun : exec (ThreadServer.step serverFd) {} acts = some s) : Served s.globals.sockets
  | pool {serverFd : ℤ} {acts : List PoolServerAct} {s : PoolServer}
      (hrun : exec (PoolServer.step serverFd) .init acts = some s) :
      Served s.server.globals.sockets
  | polling {serverFd : ℤ} {acts : List PollingAct} {s : PollingServer}
      (hrun : exec (PollingServer.step serverFd) .init acts = some s) : Served s.sockets
  | epoll {serverFd : ℤ} {acts : List EpollAct} {s : EpollServer}
      (hrun : exec (EpollServer.step serverFd) (.start serverFd) acts = some s) :
      Served s.sockets
  | reactor {serverFd : ℤ} {ctlAdd : Bool} {acts : List (LoopAct CallResults)}
      {l : Loop ReactorServer ServerCallback}
      (hrun : exec (Loop.step (ReactorServer.handle serverFd))
        (ReactorServer.start serverFd ctlAdd) acts = some l) :
      Served l.state.sockets

theorem Served.legal {k : Sockets} (h : Served k) : k.Legal := by
  cases h with
  | threads hrun =>
    obtain ⟨t, ht⟩ := (ThreadServer.inv_run hrun).tracks
    exact ⟨t, ht.leads⟩
  | pool hrun =>
    obtain ⟨t, ht⟩ := (PoolServer.inv_run hrun).server.tracks
    exact ⟨t, ht.leads⟩
  | polling hrun => exact (PollingServer.inv_run hrun).answered.legal
  | epoll hrun => exact (EpollServer.inv_run hrun).answered.legal
  | reactor hrun => exact (ReactorServer.inv_run hrun).answered.legal

end Gateway.Service
