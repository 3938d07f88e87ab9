/-
  Hvac/DeploymentCalls.lean
  =========================
  **One call of one process, compared with the plain file system.**

  For each call: from a state with the invariant, a call within the limits of the
  protocol returns, with the answer that the descriptors the application sees give,
  and leaves them what the application sees (`Answered`).  A tracked descriptor is
  served by the server its path hashes to; one whose open was refused there falls
  back to the local file at its first positional read.
-/
import Hvac.Deployment

namespace Hvac

open Cxx Posix

variable {env : Env} {rl : ReadLen} {bbpath : String} {N : Nat} {s s' : Sys}
  {fds : FdTable String} {o : Option (Outcome Reply)} {remote : Int}

/-- The process is in the middle of a run, and every server answers. -/
structure Serviceable (env : Env) (bbpath : String) (N : Nat) (s : Sys) : Prop where
  running : s.status = .running
  inv : SysInv env PlainFlags (fun _ _ => True) bbpath N s
  alive : ∀ h, (s.net.servers h).alive = true

/-! ### Descriptors of the servers -/

/-- A call that leaves the tables of the client and the servers. -/
theorem Sys.Accounts.of_same (hclient : s'.proc.client = s.proc.client)
    (hnet : s'.net = s.net) : s.Accounts env N s' where
  opened h r hr := Or.inl (by rwa [hnet] at hr)
  held h r _ hholds := Or.inl (by rwa [Sys.Holds, hclient])
  flight x hx := by rwa [hnet]

/-- One server answered, and has nothing new open. -/
theorem Sys.Accounts.of_served {host : Int} {server : Server}
    (hnet : s'.net = s.net.setServer host server)
    (hopen : ∀ r, server.fds.find? r ≠ none → (s.net.servers host).fds.find? r ≠ none)
    (hheld : ∀ h r, r ≠ -1 → s.Holds env N h r → s'.Holds env N h r) : s.Accounts env N s' where
  opened h r hr := by
    left
    rw [hnet, Net.servers_setServer] at hr
    split at hr
    · next hhost =>
      rw [hhost]
      exact hopen r hr
    · exact hr
  held h r hne hholds := Or.inl (hheld h r hne hholds)
  flight x hx := by rwa [hnet]

/-! ### Calls served locally -/

section Untracked

variable {fd : Int}

/-- A call on a descriptor that is not tracked, which changes no file. -/
theorem Answered.local {call : AppCall} {out : Reply} {fds' mine : FdTable String}
    (hfds : ∀ k, fds.find? k = s.seen env N k) (hfd : s.proc.client.fdMap.find? fd = none)
    (hdirect : ∀ c, call.direct env rl ⟨c, fds, s.proc.files⟩ =
      some (⟨c, fds', s.proc.files⟩, out))
    (hmine : ∀ k, k ≠ fd → mine.find? k = s.proc.fds.find? k)
    (hplain : ∀ k, k ≠ fd → fds'.find? k = fds.find? k)
    (hsame : fds'.find? fd = mine.find? fd) :
    Answered env rl bbpath N s call fds ⟨{ s.proc with fds := mine }, .running, s.net⟩
      (some (.returned out)) where
  running := rfl
  direct := by
    refine ⟨out, fds', rfl, hdirect, fun k => ?_⟩
    by_cases hk : k = fd
    · subst hk
      rw [hsame]
      symm
      refine Sys.seen_of_untracked ?_
      exact hfd
    · rw [hplain k hk, hfds k]
      symm
      exact Sys.seen_congr (hmine k hk) rfl
  files := Or.inl rfl
  net := .same
  holds h r _ hholds := Or.inl hholds
  accounts := .of_same rfl rfl

/-- The plain descriptor is the local one. -/
theorem plain_eq_here (hfds : ∀ k, fds.find? k = s.seen env N k)
    (hfd : s.proc.client.fdMap.find? fd = none) : fds.find? fd = s.proc.fds.find? fd := by
  rw [hfds fd, Sys.seen_of_untracked hfd]

theorem answered_realRead {call : AppCall} {count : Nat}
    (hfds : ∀ k, fds.find? k = s.seen env N k) (hfd : s.proc.client.fdMap.find? fd = none)
    (hcall : ∀ p, call.direct env rl p = some (realRead rl p fd count)) :
    Answered env rl bbpath N s call fds ⟨(realRead rl s.proc fd count).1, .running, s.net⟩
      (some (.returned (realRead rl s.proc fd count).2)) := by
  obtain ⟨hret, hdata, hfind⟩ := @sysRead_congr _ rl s.proc.files.content _ _ _
    (plain_eq_here hfds hfd) count
  refine Answered.local hfds hfd (fun c => ?_)
    (fun k hk => (sysRead_movesOnly ..).find?_of_ne hk)
    (fun k hk => (sysRead_movesOnly fds fd count).find?_of_ne hk) hfind
  simp only [hcall, realRead, hret, hdata]

theorem answered_pread_untracked {count : Nat} {offset : Int}
    (hfds : ∀ k, fds.find? k = s.seen env N k) (hfd : s.proc.client.fdMap.find? fd = none) :
    Answered env rl bbpath N s (.pread fd count offset) fds
      ⟨(realPread rl s.proc fd count offset).1, .running, s.net⟩
      (some (.returned (realPread rl s.proc fd count offset).2)) := by
  have hsame := plain_eq_here hfds hfd
  obtain ⟨hret, hdata⟩ := @sysPread_congr _ rl s.proc.files.content _ _ _ hsame count offset
  refine Answered.local hfds hfd (fun c => ?_) (fun k _ => by rw [sysPread_fds])
    (fun k _ => rfl) (by rw [sysPread_fds]; exact hsame)
  simp only [AppCall.direct, realPread, sysPread_fds, hret, hdata]

theorem answered_lseek_untracked {offset whence : Int}
    (hfds : ∀ k, fds.find? k = s.seen env N k) (hfd : s.proc.client.fdMap.find? fd = none) :
    Answered env rl bbpath N s (.lseek fd offset whence) fds
      ⟨(realLseek s.proc fd offset whence).1, .running, s.net⟩
      (some (.returned ⟨(realLseek s.proc fd offset whence).2, []⟩)) := by
  obtain ⟨hret, hfind⟩ := @sysSeek_congr _ s.proc.files.content _ _ _
    (plain_eq_here hfds hfd) offset whence
  refine Answered.local hfds hfd (fun c => ?_)
    (fun k hk => (sysSeek_movesOnly ..).find?_of_ne hk)
    (fun k hk => (sysSeek_movesOnly fds fd offset whence).find?_of_ne hk) hfind
  simp only [AppCall.direct, realLseek, hret]

theorem sysClose_congr {t t' : FdTable String} (h : t.find? fd = t'.find? fd) :
    (sysClose t fd).1 = (sysClose t' fd).1 := by
  unfold sysClose
  rw [h]
  rcases t'.find? fd with _ | f <;> rfl

theorem answered_close_untracked (hfds : ∀ k, fds.find? k = s.seen env N k)
    (hfd : s.proc.client.fdMap.find? fd = none) :
    Answered env rl bbpath N s (.close fd) fds ⟨(realClose s.proc fd).1, .running, s.net⟩
      (some (.returned ⟨(realClose s.proc fd).2, []⟩)) := by
  refine Answered.local hfds hfd (fun c => ?_) (fun k hk => find?_sysClose_of_ne hk _)
    (fun k hk => find?_sysClose_of_ne hk fds) ?_
  · simp only [AppCall.direct, realClose, sysClose_congr (plain_eq_here hfds hfd)]
  · have hgone : ∀ t : FdTable String, (sysClose t fd).2.find? fd = none := fun t => by
      rw [find?_sysClose, if_pos rfl]
    exact (hgone fds).trans (hgone s.proc.fds).symm

end Untracked

/-! ### Calls that a server answers -/

section Tracked

variable {fd : Int} {path : String}

/-- One server moved the descriptor behind `fd` to `pos`, and so do the descriptors
    of the plain process. -/
theorem Answered.moved (h : Serviceable env bbpath N s) {call : AppCall} {out : Reply} {r : Int}
    {f g : OpenFile String} (hfds : ∀ k, fds.find? k = s.seen env N k)
    (hpath : s.proc.client.fdMap.find? fd = some path) (ht : OpenAt env bbpath N s fd path r f g)
    {request : Request} {server : Server} {reply : Option Reply} {pos : Nat}
    (hhandle : (s.net.servers (hostOf env N path)).handle rl bbpath s.proc.files remote request =
      some (server, reply))
    (hrequest : request.Transfers)
    (halive : server.alive = (s.net.servers (hostOf env N path)).alive)
    (hserver : server.fds =
      (s.net.servers (hostOf env N path)).fds.insert r { g with pos := pos })
    (hdirect : ∀ c, call.direct env rl ⟨c, fds, s.proc.files⟩ =
      some (⟨c, fds.insert fd { f with pos := pos }, s.proc.files⟩, out)) :
    Answered env rl bbpath N s call fds
      ⟨s.proc, .running, s.net.setServer (hostOf env N path) server⟩ (some (.returned out)) where
  running := rfl
  direct := by
    refine ⟨out, _, rfl, hdirect, fun k => ?_⟩
    rw [h.inv.seen_moved hpath ht hserver k, OrdMap.find?_insert, hfds k]
  files := Or.inl rfl
  net := by
    refine .handled (hrequest.ne_openIn · · · |>.elim) hrequest.ne_closeIn hhandle halive ?_
    intro r' _ hother
    have hne : r' ≠ r := by
      rintro rfl
      exact hother (ht.holds hpath)
    rw [hserver, OrdMap.find?_insert_of_ne hne]
  holds k r' _ hholds := Or.inl hholds
  accounts := by
    refine .of_served rfl (fun r' hr' => ?_) fun _ _ _ hholds => hholds
    rw [hserver, OrdMap.find?_insert] at hr'
    split at hr'
    · next hsame =>
      rw [hsame, ht.there]
      exact Option.some_ne_none g
    · exact hr'

/-- A server answered and moved no descriptor. -/
theorem Answered.unmoved {call : AppCall} {out : Reply}
    (hfds : ∀ k, fds.find? k = s.seen env N k) {host : Int}
    {request : Request} {server : Server} {reply : Option Reply}
    (hhandle : (s.net.servers host).handle rl bbpath s.proc.files remote request =
      some (server, reply))
    (hrequest : request.Transfers)
    (halive : server.alive = (s.net.servers host).alive)
    (hserver : server.fds = (s.net.servers host).fds)
    (hdirect : ∀ c, call.direct env rl ⟨c, fds, s.proc.files⟩ =
      some (⟨c, fds, s.proc.files⟩, out)) :
    Answered env rl bbpath N s call fds ⟨s.proc, .running, s.net.setServer host server⟩
      (some (.returned out)) where
  running := rfl
  direct := ⟨out, fds, rfl, hdirect, fun k => by rw [hfds k, Sys.seen_unmoved hserver]⟩
  files := Or.inl rfl
  net := by
    refine .handled (hrequest.ne_openIn · · · |>.elim) hrequest.ne_closeIn hhandle halive ?_
    intro r' _ _
    rw [hserver]
  holds k r' _ hholds := Or.inl hholds
  accounts := .of_served rfl (fun r' hr' => by rwa [hserver] at hr') fun _ _ _ hholds => hholds

theorem answered_read (h : Serviceable env bbpath N s) (hfds : ∀ k, fds.find? k = s.seen env N k)
    {count : Nat} (hused : WellUsed env bbpath N s remote (.read fd count))
    (hstep : (sysMachine env rl bbpath).step s (.call (.read fd count) remote) = some (s', o)) :
    Answered env rl bbpath N s (.read fd count) fds s' o := by
  rcases hpath : s.proc.client.fdMap.find? fd with _ | path
  · rw [step_read_untracked h.running hpath] at hstep
    cases hstep
    exact answered_realRead hfds hpath fun _ => rfl
  · obtain ⟨⟨hcount, hremote⟩, g', hopen, hend⟩ := hused.1 path hpath
    obtain ⟨-, hnone⟩ | ⟨r, f, g, ht⟩ := h.inv.openAt hpath
    · rw [hnone] at hopen
      cases hopen
    · obtain rfl : g = g' := ht.remote_eq hpath hopen
      have hhandle := @Server.handle_read rl bbpath s.proc.files _ r count fd g (h.alive _)
        (Int.natCast_nonneg count) ht.there ht.canReadThere hend remote hremote
      simp only [ht.content, Int.toNat_natCast] at hhandle
      rw [← int32_count hcount] at hhandle
      rw [step_read h.running h.inv.calm hpath ht.redir hhandle] at hstep
      simp only [finishRead_natCast, int32_readLen, not_lt.mpr (Int.natCast_nonneg _), if_false,
        Option.some.injEq, Prod.mk.injEq] at hstep
      obtain ⟨rfl, rfl⟩ := hstep
      refine Answered.moved h hfds hpath ht hhandle trivial rfl rfl fun c => ?_
      have hplain : fds.find? fd = some { f with pos := g.pos } := (hfds fd).trans ht.seen
      simp only [AppCall.direct, realRead, sysRead_of_find? hplain ht.canRead hend, ht.file]

/-- A positional read of a descriptor whose open the server refused: the request
    fails, the descriptor is untracked, and the local file answers. -/
theorem answered_pread_refused (h : Serviceable env bbpath N s)
    (hfds : ∀ k, fds.find? k = s.seen env N k) {count : Nat} {offset : Int}
    (hN : 1 ≤ N ∧ N < 2 ^ 31) (hpath : s.proc.client.fdMap.find? fd = some path)
    (hr : s.proc.client.fdRedirMap.find? fd = some (-1)) (hnone : s.remoteAt env N fd = none)
    (hagree : RingAgrees env true s.proc.client fd) (hcount : count < 2 ^ 31)
    (hoffset : 0 ≤ offset)
    (hstep : (sysMachine env rl bbpath).step s (.call (.pread fd count offset) remote) =
      some (s', o)) :
    Answered env rl bbpath N s (.pread fd count offset) fds s' o := by
  have hclosed := (Sys.remoteAt_of_tracked hpath hr).symm.trans hnone
  have hhandle := @Server.handle_pread_closed rl bbpath s.proc.files _ (-1) count fd offset
    (h.alive _) (Int.natCast_nonneg count) hclosed (by omega) remote
  rw [← int32_count hcount] at hhandle
  rw [step_pread hN h.running h.inv.calm hpath hr hagree hhandle] at hstep
  simp only [finishRead, Int.reduceNeg, Int.reduceLT, if_true, realPread, sysPread_fds,
    Option.some.injEq, Prod.mk.injEq] at hstep
  obtain ⟨rfl, rfl⟩ := hstep
  have hsame : fds.find? fd = s.proc.fds.find? fd := by
    rw [hfds fd, Sys.seen_of_remoteAt_none hnone]
  obtain ⟨hret, hdata⟩ := @sysPread_congr _ rl s.proc.files.content _ _ _ hsame count offset
  refine ⟨rfl, ⟨_, fds, rfl, fun c => ?_, fun k => ?_⟩, Or.inl rfl, ?_, ?_, ?_⟩
  · simp only [AppCall.direct, realPread, sysPread_fds, hret, hdata]
  · rw [hfds k]
    symm
    by_cases hk : k = fd
    · subst hk
      rw [Sys.seen_of_remoteAt_none hnone]
      exact Sys.seen_of_untracked (OrdMap.find?_erase_self ..)
    · refine Sys.seen_congr rfl (Sys.remoteAt_congr (OrdMap.find?_erase_of_ne hk _) rfl ?_)
      intro path' r' _ _
      rw [Net.servers_setServer]
      split
      · next hhost => rw [hhost]
      · rfl
  · exact .handled (fun _ _ heq => by cases heq) (fun _ heq => by cases heq) hhandle rfl
      fun _ _ _ => rfl
  · rintro k r' - ⟨fd', path', hpath', hr', hhost⟩
    exact Or.inl ⟨fd', path', OrdMap.find?_of_find?_erase hpath', hr', hhost⟩
  · -- the descriptor that is untracked held none
    refine .of_served rfl (fun _ hopen => hopen) ?_
    rintro k r' hne ⟨fd', path', hpath', hr', hhost⟩
    have hfd : fd' ≠ fd := by
      rintro rfl
      exact hne (Option.some.inj (hr'.symm.trans hr))
    exact ⟨fd', path', (OrdMap.find?_erase_of_ne hfd _).trans hpath', hr', hhost⟩

theorem answered_pread (h : Serviceable env bbpath N s) (hN : 1 ≤ N ∧ N < 2 ^ 31)
    (hfds : ∀ k, fds.find? k = s.seen env N k) {count : Nat} {offset : Int}
    (hused : WellUsed env bbpath N s remote (.pread fd count offset))
    (hstep : (sysMachine env rl bbpath).step s (.call (.pread fd count offset) remote) =
      some (s', o)) :
    Answered env rl bbpath N s (.pread fd count offset) fds s' o := by
  obtain ⟨⟨hfollows, hlimits⟩, -⟩ := hused
  have hagree := hfollows.agrees h.inv.calm hN
  rcases hpath : s.proc.client.fdMap.find? fd with _ | path
  · rw [step_pread_untracked h.running hpath] at hstep
    cases hstep
    exact answered_pread_untracked hfds hpath
  · obtain ⟨⟨hcount, hremote⟩, hoffset, hend⟩ := hlimits path hpath
    obtain ⟨hr, hnone⟩ | ⟨r, f, g, ht⟩ := h.inv.openAt hpath
    · exact answered_pread_refused h hfds hN hpath hr hnone (hagree true) hcount hoffset hstep
    · have hhandle := @Server.handle_pread rl bbpath s.proc.files _ r count fd offset g (h.alive _)
        (Int.natCast_nonneg count) ht.there ht.canReadThere hoffset hend remote hremote
      rw [← int32_count hcount] at hhandle
      rw [step_pread hN h.running h.inv.calm hpath ht.redir (hagree true) hhandle] at hstep
      simp only [ht.content, int32_count hcount, Int.toNat_natCast, finishRead_natCast,
        not_lt.mpr (Int.natCast_nonneg _), if_false, Option.some.injEq, Prod.mk.injEq] at hstep
      obtain ⟨rfl, rfl⟩ := hstep
      refine Answered.unmoved hfds hhandle trivial rfl rfl fun c => ?_
      have hplain : fds.find? fd = some { f with pos := g.pos } := (hfds fd).trans ht.seen
      simp only [AppCall.direct, realPread, sysPread_of_find? hplain ht.canRead hoffset hend,
        ht.file]

theorem answered_lseek (h : Serviceable env bbpath N s) (hN : 1 ≤ N ∧ N < 2 ^ 31)
    (hfds : ∀ k, fds.find? k = s.seen env N k) {offset whence : Int}
    (hused : WellUsed env bbpath N s remote (.lseek fd offset whence))
    (hstep : (sysMachine env rl bbpath).step s (.call (.lseek fd offset whence) remote) =
      some (s', o)) :
    Answered env rl bbpath N s (.lseek fd offset whence) fds s' o := by
  obtain ⟨⟨hfollows, hlimits⟩, -⟩ := hused
  have hagree := hfollows.agrees h.inv.calm hN
  rcases hpath : s.proc.client.fdMap.find? fd with _ | path
  · rw [step_lseek_untracked h.running hpath] at hstep
    cases hstep
    exact answered_lseek_untracked hfds hpath
  · obtain ⟨⟨-, hoffset⟩, g, hg, hfits⟩ := hlimits path hpath
    obtain ⟨-, hnone⟩ | ⟨r, f, g', ht⟩ := h.inv.openAt hpath
    · rw [hnone] at hg
      cases hg
    · obtain rfl : g' = g := ht.remote_eq hpath hg
      have hplain : fds.find? fd = some { f with pos := g'.pos } := (hfds fd).trans ht.seen
      rcases hx : seekTarget (s.proc.files.content path).length g'.pos offset whence with _ | x
      · have hhandle := @Server.handle_seek_failed rl bbpath s.proc.files _ r offset g' (h.alive _)
          ht.there whence (by rw [ht.content]; exact hx) remote
        rw [← int32_of_isInt32 hoffset] at hhandle
        rw [step_lseek hN h.running h.inv.calm hpath ht.redir (hagree false) hhandle] at hstep
        cases hstep
        refine Answered.unmoved hfds hhandle trivial rfl rfl fun c => ?_
        simp only [AppCall.direct, realLseek,
          sysSeek_of_no_target hplain (by rw [ht.file]; exact hx)]
      · have hhandle := @Server.handle_seek rl bbpath s.proc.files _ r offset g' (h.alive _)
          ht.there (canSeek_of_canRead ht.canReadThere) whence x (by rw [ht.content]; exact hx)
          remote
        rw [← int32_of_isInt32 hoffset, int32_count (hfits x hx)] at hhandle
        rw [step_lseek hN h.running h.inv.calm hpath ht.redir (hagree false) hhandle] at hstep
        cases hstep
        refine Answered.moved h hfds hpath ht hhandle trivial rfl rfl fun c => ?_
        simp only [AppCall.direct, realLseek,
          sysSeek_of_target hplain (canSeek_of_canRead ht.canRead) (by rw [ht.file]; exact hx)]

theorem answered_close (h : Serviceable env bbpath N s) (hN : 1 ≤ N ∧ N < 2 ^ 31)
    (hfds : ∀ k, fds.find? k = s.seen env N k) (hused : WellUsed env bbpath N s remote (.close fd))
    (hstep : (sysMachine env rl bbpath).step s (.call (.close fd) remote) = some (s', o)) :
    Answered env rl bbpath N s (.close fd) fds s' o := by
  rcases hpath : s.proc.client.fdMap.find? fd with _ | path
  · rw [step_close_untracked h.running hpath] at hstep
    cases hstep
    exact answered_close_untracked hfds hpath
  · obtain ⟨-, r, hr, -⟩ := h.inv.tracked hpath
    obtain ⟨f, hf, -⟩ := h.inv.locally fd path hpath
    rw [step_close hN h.running h.inv.calm hpath hr (hused.1.agrees h.inv.calm hN true)] at hstep
    cases hstep
    have hopen : fds.find? fd ≠ none := by
      rw [hfds fd]
      intro hnone
      rw [Sys.seen_eq_none_iff, hf] at hnone
      cases hnone
    obtain ⟨f', hf'⟩ := Option.ne_none_iff_exists'.mp hopen
    refine ⟨rfl, ⟨_, (sysClose fds fd).2, rfl, fun c => ?_, fun k => ?_⟩, Or.inl rfl,
      .sent hpath hr, ?_, ⟨fun _ _ hopen => Or.inl hopen, ?_, fun x hx =>
        List.mem_append_left _ hx⟩⟩
    · simp only [AppCall.direct, realClose, sysClose_of_find? hf', sysClose_of_find? hf]
    · rw [find?_sysClose]
      symm
      by_cases hk : k = fd
      · rw [if_pos hk]
        apply Sys.seen_of_closed
        show (sysClose s.proc.fds fd).2.find? k = none
        rw [find?_sysClose, if_pos hk]
      · rw [if_neg hk, hfds k]
        exact Sys.seen_congr (find?_sysClose_of_ne hk _) (Sys.remoteAt_congr
          (OrdMap.find?_erase_of_ne hk _) (OrdMap.find?_erase_of_ne hk _) fun _ _ _ _ => rfl)
    · rintro k r' - ⟨fd', path', hpath', hr', hhost⟩
      dsimp only at hpath' hr'
      rw [OrdMap.find?_erase] at hpath' hr'
      split at hpath'
      · cases hpath'
      · next hne =>
        rw [if_neg hne] at hr'
        exact Or.inl ⟨fd', path', hpath', hr', hhost⟩
    · rintro k r' - ⟨fd', path', hpath', hr', rfl⟩
      by_cases hfd : fd' = fd
      · subst hfd
        obtain rfl := Option.some.inj (hpath'.symm.trans hpath)
        obtain rfl := Option.some.inj (hr'.symm.trans hr)
        exact Or.inr (List.mem_append_right _ (List.mem_singleton_self _))
      · exact Or.inl ⟨fd', path', (OrdMap.find?_erase_of_ne hfd _).trans hpath',
          (OrdMap.find?_erase_of_ne hfd _).trans hr', rfl⟩

/-! ### Opens and writes -/

/-- The files an open leaves: one may have changed, if no copy of it was begun. -/
theorem files_of_opened {path file : String} {flags : OFlags} {ret : Int} {data : Contents}
    (hused : WellUsed env bbpath N s remote (.openFile path flags ret)) (hret : ret ≠ -1)
    (hfile : env.canonical path = some file)
    (hdata : openedContents flags (s.proc.files.find? file) = some data) :
    s.proc.files.insert file data = s.proc.files ∨
      ∃ file' data', s.proc.files.insert file data = s.proc.files.insert file' data' ∧
        s.Uncopied file' := by
  rcases hused.2 file hfile with hneg | hsame | huncopied
  · exact absurd hneg hret
  · exact Or.inl (OrdMap.insert_of_find? (hsame.symm.trans hdata))
  · exact Or.inr ⟨file, data, rfl, huncopied⟩

/-- An open at a server gives out a number that was free, at position zero, and
    touches no descriptor that is in use. -/
theorem Server.openRpcHandler_leaves {v server : Server} {files : Files} {path : String}
    {reply : Option Reply} (hnone : v.fds.find? (-1) = none)
    (hopen : v.openRpcHandler bbpath files path remote = some (server, reply)) :
    reply = some ⟨remote, []⟩ ∧ server.alive = v.alive ∧
      (∀ r, v.fds.find? r ≠ none ∨ r = -1 → server.fds.find? r = v.fds.find? r) ∧
      (remote ≠ -1 → v.fds.find? remote = none) ∧
      (∀ g, server.fds.find? remote = some g → g.pos = 0) ∧
      ∀ r, server.fds.find? r ≠ none → v.fds.find? r ≠ none ∨ r = remote := by
  obtain ⟨rfl, ⟨rfl, rfl⟩ | ⟨_, hremote, -, hnew, -, rfl⟩⟩ := Server.openRpcHandler_eq_some hopen
  · refine ⟨rfl, rfl, fun _ _ => rfl, fun hne => absurd rfl hne, fun g hg => ?_, fun _ => Or.inl⟩
    cases hnone.symm.trans hg
  · refine ⟨rfl, rfl, fun r hr => OrdMap.find?_insert_of_ne ?_ .., fun _ => hnew, fun g hg => ?_,
      fun r hr => ?_⟩
    · rintro rfl
      rcases hr with hr | hr
      · exact hr hnew
      · exact hremote hr
    · cases (OrdMap.find?_insert_self ..).symm.trans hg
      rfl
    · by_cases hsame : r = remote
      · exact Or.inr hsame
      · exact Or.inl (by rwa [OrdMap.find?_insert_of_ne hsame] at hr)

theorem Serviceable.not_open_neg_one (h : Serviceable env bbpath N s) (host : Int) :
    (s.net.servers host).fds.find? (-1) = none :=
  (h.inv.linked.servers host).not_open_neg_one

/-- The remote number of a tracked descriptor is open at its server, or that of a
    failure. -/
theorem Serviceable.remote_open (h : Serviceable env bbpath N s) {k r : Int} {path : String}
    (hpath : s.proc.client.fdMap.find? k = some path)
    (hr : s.proc.client.fdRedirMap.find? k = some r) :
    (s.net.servers (hostOf env N path)).fds.find? r ≠ none ∨ r = -1 := by
  obtain ⟨-, r', hr', hneg | ⟨⟨g, hg, -⟩, -⟩⟩ := h.inv.tracked hpath
  · exact Or.inr (Option.some.inj (hr.symm.trans hr') ▸ hneg)
  · obtain rfl := Option.some.inj (hr.symm.trans hr')
    left
    rw [hg]
    exact Option.some_ne_none g

/-- A tracked open, answered with a new descriptor or refused. -/
theorem answered_open_tracked (h : Serviceable env bbpath N s)
    (hfds : ∀ k, fds.find? k = s.seen env N k) {path file : String} {flags : OFlags} {ret : Int}
    {data : Contents} (hused : WellUsed env bbpath N s remote (.openFile path flags ret))
    (hret : ret ≠ -1) (hfile : env.canonical path = some file)
    (hdata : openedContents flags (s.proc.files.find? file) = some data)
    (hfree : s.proc.fds.find? ret = none)
    (hdirect : ∀ c, (AppCall.openFile path flags ret).direct env rl ⟨c, fds, s.proc.files⟩ =
      some (⟨c, fds.insert ret ⟨file, flags, 0⟩, s.proc.files.insert file data⟩, ⟨ret, []⟩))
    (hopen : realOpen env s.proc path flags ret = some { s.proc with
      fds := s.proc.fds.insert ret ⟨file, flags, 0⟩, files := s.proc.files.insert file data })
    (htrack : trackPath env path flags = some file)
    (hstep : (sysMachine env rl bbpath).step s (.call (.openFile path flags ret) remote) =
      some (s', o)) :
    Answered env rl bbpath N s (.openFile path flags ret) fds s' o := by
  rw [step_open h.running h.inv.calm hopen hret htrack] at hstep
  rcases hhandle : (s.net.servers (hostOf env N file)).handle rl bbpath
    (s.proc.files.insert file data) remote (.openIn file ret) with _ | ⟨server, reply⟩
  · rw [hhandle] at hstep
    cases hstep
  have hanswer := hhandle
  simp only [Server.handle, if_pos (h.alive _)] at hanswer
  obtain ⟨rfl, halive, hspares, hnew, hzero, honly⟩ :=
    Server.openRpcHandler_leaves (h.not_open_neg_one _) hanswer
  simp only [hhandle, Option.some.injEq, Prod.mk.injEq] at hstep
  obtain ⟨rfl, rfl⟩ := hstep
  refine ⟨rfl, ⟨_, _, rfl, hdirect, fun k => ?_⟩, files_of_opened hused hret hfile hdata,
    .handled ?_ (fun _ heq => by cases heq) hhandle halive fun r hr _ => hspares r (Or.inl hr), ?_, ?_⟩
  · rw [OrdMap.find?_insert]
    symm
    by_cases hk : k = ret
    · subst hk
      rw [if_pos rfl]
      refine Sys.seen_of_opened (OrdMap.find?_insert_self ..) fun g hg => hzero g ?_
      rw [Sys.remoteAt_of_tracked (OrdMap.find?_insert_self ..) (OrdMap.find?_insert_self ..)] at hg
      rwa [Net.servers_setServer_self] at hg
    · rw [if_neg hk, hfds k]
      refine Sys.seen_congr (OrdMap.find?_insert_of_ne hk ..) (Sys.remoteAt_congr
        (OrdMap.find?_insert_of_ne hk ..) (OrdMap.find?_insert_of_ne hk ..) ?_)
      intro path' r' hpath' hr'
      have hopen' := h.remote_open hpath' hr'
      rw [Net.servers_setServer]
      split
      · next hhost =>
        rw [hhost] at hopen' ⊢
        exact hspares r' hopen'
      · rfl
  · intro path' localfd heq
    obtain ⟨rfl, -⟩ := Request.openIn.inj heq
    exact (hused.1 _ htrack).1
  · rintro k r hr ⟨fd', path', hpath', hr', rfl⟩
    dsimp only at hpath' hr'
    rw [OrdMap.find?_insert] at hpath' hr'
    split at hpath'
    · next hfd =>
      rw [if_pos hfd] at hr'
      cases hpath'
      cases hr'
      exact Or.inr (hnew hr)
    · next hfd =>
      rw [if_neg hfd] at hr'
      exact Or.inl ⟨fd', path', hpath', hr', rfl⟩
  · refine ⟨fun k r hr => ?_, ?_, fun _ hx => hx⟩
    · dsimp only at hr
      rw [Net.servers_setServer] at hr
      split at hr
      · next hhost =>
        rcases honly r hr with hbefore | rfl
        · rw [hhost]
          exact Or.inl hbefore
        · exact Or.inr ⟨ret, file, OrdMap.find?_insert_self .., OrdMap.find?_insert_self ..,
            hhost.symm⟩
      · exact Or.inl hr
    · rintro k r - ⟨fd', path', hpath', hr', hhost⟩
      have hfd : fd' ≠ ret := by
        rintro rfl
        rw [h.inv.locally.untracked hfree] at hpath'
        cases hpath'
      exact Or.inl ⟨fd', path', (OrdMap.find?_insert_of_ne hfd ..).trans hpath',
        (OrdMap.find?_insert_of_ne hfd ..).trans hr', hhost⟩

/-- An open that is not tracked. -/
theorem answered_open_untracked (h : Serviceable env bbpath N s)
    (hfds : ∀ k, fds.find? k = s.seen env N k) {path file : String} {flags : OFlags} {ret : Int}
    {data : Contents} (hused : WellUsed env bbpath N s remote (.openFile path flags ret))
    (hret : ret ≠ -1) (hfile : env.canonical path = some file)
    (hdata : openedContents flags (s.proc.files.find? file) = some data)
    (hfree : s.proc.fds.find? ret = none)
    (hdirect : ∀ c, (AppCall.openFile path flags ret).direct env rl ⟨c, fds, s.proc.files⟩ =
      some (⟨c, fds.insert ret ⟨file, flags, 0⟩, s.proc.files.insert file data⟩, ⟨ret, []⟩))
    (hopen : realOpen env s.proc path flags ret = some { s.proc with
      fds := s.proc.fds.insert ret ⟨file, flags, 0⟩, files := s.proc.files.insert file data })
    (htrack : trackPath env path flags = none)
    (hstep : (sysMachine env rl bbpath).step s (.call (.openFile path flags ret) remote) =
      some (s', o)) :
    Answered env rl bbpath N s (.openFile path flags ret) fds s' o := by
  rw [step_open_untracked h.running hopen (Or.inr htrack)] at hstep
  cases hstep
  refine ⟨rfl, ⟨_, _, rfl, hdirect, fun k => ?_⟩, files_of_opened hused hret hfile hdata, .same,
    fun k r _ hholds => Or.inl hholds, .of_same rfl rfl⟩
  rw [OrdMap.find?_insert]
  symm
  by_cases hk : k = ret
  · subst hk
    rw [if_pos rfl]
    refine Sys.seen_of_opened (OrdMap.find?_insert_self ..) fun g hg => ?_
    cases hg.symm.trans (Sys.remoteAt_of_untracked (h.inv.locally.untracked hfree))
  · rw [if_neg hk, hfds k]
    exact Sys.seen_congr (OrdMap.find?_insert_of_ne hk ..) rfl

theorem answered_openFile (h : Serviceable env bbpath N s)
    (hfds : ∀ k, fds.find? k = s.seen env N k) {path : String} {flags : OFlags} {ret : Int}
    (hused : WellUsed env bbpath N s remote (.openFile path flags ret))
    (hstep : (sysMachine env rl bbpath).step s (.call (.openFile path flags ret) remote) =
      some (s', o)) :
    Answered env rl bbpath N s (.openFile path flags ret) fds s' o := by
  rcases hopen : Hvac.realOpen env s.proc path flags ret with _ | q
  · simp [sysMachine, h.running, AppCall.perform, wrapOpen, openAndTrack, hopen] at hstep
  · rcases realOpen_eq_some hopen with ⟨hret, rfl⟩ | ⟨file, data, hret, hfile, hdata, hnonneg,
      hfree, rfl⟩
    · rw [step_open_untracked h.running hopen (Or.inl hret)] at hstep
      cases hstep
      refine ⟨rfl, ⟨_, fds, rfl, fun c => ?_, hfds⟩, Or.inl rfl, .same,
        fun k r _ hholds => Or.inl hholds, .of_same rfl rfl⟩
      simp only [AppCall.direct, Hvac.realOpen, hret, if_true, Option.map_some]
    · have hplain : fds.find? ret = none := by
        rw [hfds ret]
        exact Sys.seen_of_closed hfree
      have hdirect : ∀ c, (AppCall.openFile path flags ret).direct env rl
          ⟨c, fds, s.proc.files⟩ =
          some (⟨c, fds.insert ret ⟨file, flags, 0⟩, s.proc.files.insert file data⟩,
            ⟨ret, []⟩) := by
        intro c
        simp only [AppCall.direct]
        rw [@realOpen_of_free env ⟨c, fds, s.proc.files⟩ _ _ _ _ _ hret hfile hdata hnonneg hplain,
          Option.map_some]
      rcases htrack : trackPath env path flags with _ | file'
      · exact answered_open_untracked h hfds hused hret hfile hdata hfree hdirect hopen htrack
          hstep
      · obtain rfl := Option.some.inj (hfile.symm.trans (trackPath_canonical htrack))
        exact answered_open_tracked h hfds hused hret hfile hdata hfree hdirect hopen htrack hstep

theorem answered_write (hfds : ∀ k, fds.find? k = s.seen env N k) {data : Contents}
    (hrunning : s.status = .running) (hused : WellUsed env bbpath N s remote (.write fd data))
    (hstep : (sysMachine env rl bbpath).step s (.call (.write fd data) remote) = some (s', o)) :
    Answered env rl bbpath N s (.write fd data) fds s' o := by
  obtain ⟨hfd, huncopied⟩ := hused
  have hfd : s.proc.client.fdMap.find? fd = none := hfd
  have hsame := plain_eq_here hfds hfd
  rw [step_write hrunning] at hstep
  cases hstep
  rcases @sysWrite_congr _ s.proc.files.content _ _ _ hsame.symm data with
    ⟨hmine, hplain⟩ | ⟨f, pos, contents, hf, hmine, hplain⟩
  · simp only [realWrite, hmine]
    refine Answered.local hfds hfd (fun c => ?_) (fun _ _ => rfl) (fun _ _ => rfl) hsame
    simp only [AppCall.direct, realWrite, hplain]
  · simp only [realWrite, hmine]
    refine ⟨rfl, ⟨_, fds.insert fd { f with pos := pos }, rfl, fun c => ?_, fun k => ?_⟩,
      Or.inr ⟨f.file, contents, rfl, huncopied f hf⟩, .same, fun k r _ hholds => Or.inl hholds,
      .of_same rfl rfl⟩
    · simp only [AppCall.direct, realWrite, hplain]
    · rw [OrdMap.find?_insert]
      symm
      by_cases hk : k = fd
      · subst hk
        rw [if_pos rfl]
        refine (Sys.seen_of_untracked ?_).trans (OrdMap.find?_insert_self ..)
        exact hfd
      · rw [if_neg hk, hfds k]
        exact Sys.seen_congr (OrdMap.find?_insert_of_ne hk ..) rfl

end Tracked

/-- **A call within the limits of the protocol is answered as the plain file system
    answers it.** -/
theorem Serviceable.answered (h : Serviceable env bbpath N s) (hN : 1 ≤ N ∧ N < 2 ^ 31)
    (hfds : ∀ k, fds.find? k = s.seen env N k) {call : AppCall}
    (hused : WellUsed env bbpath N s remote call)
    (hstep : (sysMachine env rl bbpath).step s (.call call remote) = some (s', o)) :
    Answered env rl bbpath N s call fds s' o := by
  cases call with
  | openFile path flags ret => exact answered_openFile h hfds hused hstep
  | read fd count => exact answered_read h hfds hused hstep
  | pread fd count offset => exact answered_pread h hN hfds hused hstep
  | lseek fd offset whence => exact answered_lseek h hN hfds hused hstep
  | close fd => exact answered_close h hN hfds hused hstep
  | read64 fd count =>
    rw [step_read64 h.running] at hstep
    cases hstep
    exact answered_realRead hfds hused.1 fun _ => rfl
  | readv fd iov =>
    rw [step_readv h.running] at hstep
    cases hstep
    exact answered_realRead hfds hused.1 fun _ => rfl
  | write fd data => exact answered_write hfds h.running hused hstep

end Hvac
