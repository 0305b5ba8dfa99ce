import BaremetalDhcp.Benchmark

/-!
# Servers that acknowledge each address once

ARRAY and HASHMAP keep a lease for every client, and two ACKs of one address lie a lease time
apart.  The other three lease modes know nothing about their clients.  What keeps two clients
apart there is that an address is not acknowledged a second time at all, whoever asks for it.

* `AckedOnce` — no two responses acknowledge the same address.
* `finished_of_ackedOnce` — clients of the network that finished have different addresses.
* `passesApart_of_ackedOnce` — the same of the clients that `main` counts.
-/

namespace BaremetalDhcp

open Machine

/-- No two responses acknowledge the same address. -/
def AckedOnce (responses : List (Option DhcpMessage)) : Prop :=
  responses.Pairwise fun r r' => ∀ ip, IsAck ip r → ¬ IsAck ip r'

section Network

variable {P ι : Type} [DecidableEq ι] {adapter : Adapter P} {mac : ι → Bytes 6}
  {xid : ι → UInt32} {server : DhcpServer P}

/-- The answers in the log are the outputs of the library on the messages in it. -/
theorem answers_netLog (run : List (NetStep ι)) (net : Net P ι) :
    (netLog adapter mac xid net run).map Prod.snd = outputs (processMessage adapter.calls)
      net.server ((netLog adapter mac xid net run).map LogEntry.arrival) := by
  have hhistory := congrArg (List.map Prod.snd)
    (@history_netLog P ι _ adapter mac xid run net).2
  rw [map_snd_history, List.map_map] at hhistory
  exact hhistory

/-- **Clients with different MACs that finished have different addresses**, all of the pool. -/
theorem finished_of_ackedOnce (hpool : AcksInPool adapter server) (run : List (NetStep ι))
    (honce : AckedOnce (outputs (processMessage adapter.calls) server
      ((netLog adapter mac xid (Net.fresh mac xid server) run).map LogEntry.arrival)))
    {net : Net P ι}
    (hinv : net.Inv adapter mac xid (netLog adapter mac xid (Net.fresh mac xid server) run)) :
    (∀ i, (net.clients i).state = .done → InPool server.config.poolStart server.config.poolEnd
        (unpackIP (net.clients i).assignedIp)) ∧
      ∀ i j, mac i ≠ mac j → (net.clients i).state = .done → (net.clients j).state = .done →
        (net.clients i).assignedIp ≠ (net.clients j).assignedIp := by
  have hlog := @answers_netLog P ι _ adapter mac xid run (Net.fresh mac xid server)
  rw [show (Net.fresh mac xid server).server = server from rfl] at hlog
  rw [← hlog, AckedOnce, List.pairwise_map] at honce
  constructor
  · intro i hi
    obtain ⟨ip, hip, -, acked, hacked⟩ := hinv.done hi
    rw [hip, unpackIP_packIP]
    exact inPool_of_answered hpool run hacked
  · intro i j hmacs hi hj hsame
    obtain ⟨ip, hip, -, _, e, he, hack, hmac, -⟩ := hinv.done hi
    obtain ⟨ip', hip', -, _, e', he', hack', hmac', -⟩ := hinv.done hj
    obtain rfl : ip' = ip := packIP_injective (hip'.symm.trans (hsame.symm.trans hip))
    have hne : e ≠ e' := by
      rintro rfl
      exact hmacs (hmac.symm.trans hmac')
    -- one of the two answers comes first
    obtain hfirst | hsecond := rel_or_rel_of_pairwise honce he he' hne
    · exact hfirst ip' hack hack'
    · exact hsecond ip' hack' hack

end Network

/-- The clients that `main` counts as passed are clients of a network. -/
theorem passesApart_of_ackedOnce {P : Type} {n W : ℕ} {adapter : Adapter P} {r : Roster n W}
    {server : DhcpServer P} {prior : Cq} {priorTab : XidTab (Fin n)}
    {run : List (BenchmarkStep W)} (hmac : Function.Injective r.mac)
    (hpool : AcksInPool adapter server)
    (honce : AckedOnce (outputs (processMessage adapter.calls) server
      ((netLog adapter r.mac r.xid (Net.fresh r.mac r.xid server)
        (netRunOf adapter r server prior priorTab run)).map LogEntry.arrival))) :
    PassesApart adapter r server prior priorTab run := by
  intro hgenuine
  have hinv := Net.inv_exec server (netRunOf adapter r server prior priorTab run)
    (along_netRunOf hgenuine)
  rw [← toNet_benchmarkAfter] at hinv
  obtain ⟨hinPool, hdistinct⟩ := finished_of_ackedOnce hpool _ honce hinv
  have hleased : (benchmarkAfter adapter r server prior priorTab run).fleet.Leased
      server.config.poolStart server.config.poolEnd := by
    refine ⟨hinPool, fun i j hi hj hsame => ?_⟩
    by_contra hij
    exact hdistinct i j (hmac.ne hij) hi hj hsame
  exact ⟨hleased, hleased.passed_le⟩

end BaremetalDhcp
