import Yatwb.Server.Effects
import Std.Data.String.ToNat

/-!
# Who owns a registered connection

In a server without pool threads whose user calls only on the base thread,
every registered channel belongs to an object that is still there: to the
server itself, to a connection listed in `connections_`, or to a connection
that a waiting functor is about to destroy. A connection is unregistered by
that functor only, outside the iteration over `active_channels_`, and freed
only after that. Names and descriptors of connections are never shared.

## Implementation notes

The invariant lists the registered channels in slot order. Each effect of an
operation keeps it, and the steps of `loop` itself only move functors and
channels between the lists.
-/

namespace Yatwb

open Foundation

namespace Functor

/-- The connection a functor is about to destroy. -/
def destroys : Functor → Option Nat
  | destroyConnection c => some c
  | _ => none

@[simp] theorem destroys_eq_some {f : Functor} {c : Nat} :
    f.destroys = some c ↔ f = .destroyConnection c := by
  cases f <;> simp [destroys]

/-- Write-complete callbacks destroy nothing. -/
theorem filterMap_destroys_eq_nil {fs : List Functor}
    (h : ∀ f ∈ fs, ∃ c, f = .writeComplete c) : fs.filterMap destroys = [] := by
  rw [List.filterMap_eq_nil_iff]
  intro f hf
  obtain ⟨c, rfl⟩ := h f hf
  rfl

end Functor

namespace World

/-- The connections whose destruction waits for the base loop. -/
def dying (w : World) : List Nat := (w.waiting 0).filterMap Functor.destroys

/-- The object that owns a channel is there. -/
def Present (w : World) (ref : ChannelRef) : Prop :=
  Standing 0 ref ∨ ∃ c conn, ref = .conn c ∧ w.conns c = some conn

/-- The invariant, with the registered channels in slot order. -/
structure Owned (w : World) (owners : List ChannelRef) : Prop where
  present : ∀ ref ∈ owners, Present w ref
  opened : ∀ ref, Present w ref →
    0 ≤ (w.channels ref).fd ∧ (w.channels ref).fd ∈ w.openFds
  distinct : ∀ ref ref', Present w ref → Present w ref' →
    (w.channels ref).fd = (w.channels ref').fd → ref = ref'
  unregistered : ∀ ref, Standing 0 ref → ref ∉ owners → (w.channels ref).index < 0
  fresh : ∀ c, w.nextObj ≤ c → w.conns c = none
  inUse : ∀ c conn, .conn c ∈ owners → w.conns c = some conn →
    conn.Open ∧ (w.server.connections[conn.name]? = some c ∨ c ∈ w.dying)
  named : ∀ (name : String) c, w.server.connections[name]? = some c →
    .conn c ∈ owners ∧ ∃ conn, w.conns c = some conn ∧ conn.name = name
  numbered : ∀ c conn, w.conns c = some conn →
    ∃ k < w.server.nextConnId, conn.name = w.server.name ++ "#" ++ toString k
  unique : ∀ c c' conn conn', w.conns c = some conn → w.conns c' = some conn' →
    conn.name = conn'.name → c = c'
  functors : ∀ f ∈ w.waiting 0, (∃ c, f = .writeComplete c) ∨ ∃ c, f = .destroyConnection c
  doomed : ∀ c ∈ w.dying, .conn c ∈ owners ∧
    ∀ name : String, w.server.connections[name]? ≠ some c
  once : w.dying.Nodup
  refs : ∀ ref ∈ (w.reactors 0).phase.refs, ref ∈ owners
  swept : ∀ ref iterating, .removeChannel ref iterating ∈ w.trace → iterating = false

variable {w w' : World} {owners : List ChannelRef}

/-- The name of the next connection differs from every name given before. -/
theorem connName_ne {s : TcpServer} {k : Nat} (hk : k < s.nextConnId) :
    connName s ≠ s.name ++ "#" ++ toString k := by
  intro heq
  have hrepr := (String.append_right_inj _).mp heq
  exact absurd (Nat.repr_injective hrepr) (Nat.ne_of_gt hk)

namespace Owned

/-- No connection has the name of the next one. -/
theorem name_ne_connName (h : Owned w owners) {c : Nat} {conn : TcpConnection}
    (hc : w.conns c = some conn) : conn.name ≠ connName w.server := by
  obtain ⟨k, hk, heq⟩ := h.numbered c conn hc
  rw [heq]
  exact (connName_ne hk).symm

theorem connName_free (h : Owned w owners) : w.server.connections[connName w.server]? = none := by
  rw [Option.eq_none_iff_forall_not_mem]
  intro c hname
  obtain ⟨-, conn, hc, heq⟩ := h.named _ c hname
  exact h.name_ne_connName hc heq

/-- A connection that `loop` may call is there and in use. -/
theorem conn_of_mem (h : Owned w owners) {c : Nat} (hc : .conn c ∈ owners) :
    ∃ conn, w.conns c = some conn ∧ conn.Open := by
  rcases h.present _ hc with hstanding | ⟨c', conn, heq, hconn⟩
  · exact hstanding.elim
  · obtain rfl := ChannelRef.conn.inj heq
    exact ⟨conn, hconn, (h.inUse c conn hc hconn).1⟩

/-- A connection that is there has been numbered. -/
theorem lt_of_conn (h : Owned w owners) {c : Nat} {conn : TcpConnection}
    (hc : w.conns c = some conn) : c < w.nextObj := by
  by_contra hge
  rw [h.fresh c (Nat.le_of_not_lt hge)] at hc
  cases hc

theorem ne_nextObj (h : Owned w owners) {c : Nat} {conn : TcpConnection}
    (hc : w.conns c = some conn) : c ≠ w.nextObj := by
  rintro rfl
  rw [h.fresh _ le_rfl] at hc
  cases hc

theorem nextObj_not_mem (h : Owned w owners) : .conn w.nextObj ∉ owners := by
  intro hmem
  obtain ⟨conn, hc, -⟩ := h.conn_of_mem hmem
  exact h.ne_nextObj hc rfl

/-- A listed connection that is in use is listed under its own name only. -/
theorem listed_of_mem (h : Owned w owners) {c : Nat} {conn : TcpConnection}
    (hc : w.conns c = some conn) (hlisted : conn.name ∈ w.server.connections) :
    w.server.connections[conn.name]? = some c := by
  obtain ⟨c', hc'⟩ := Option.isSome_iff_exists.mp
    (Std.ExtTreeMap.mem_iff_isSome_getElem?.mp hlisted)
  obtain ⟨-, conn', hconn', hname⟩ := h.named _ c' hc'
  rw [hc', h.unique c' c conn' conn hconn' hc hname]

/-- The server registers one of its own channels. -/
theorem grow (h : Owned w owners) {ref : ChannelRef} (href : Standing 0 ref) :
    Owned w (owners ++ [ref]) := by
  have hconn {c : Nat} (hmem : .conn c ∈ owners ++ [ref]) : .conn c ∈ owners := by
    rcases List.mem_append.mp hmem with hmem | hmem
    · exact hmem
    · rw [← List.mem_singleton.mp hmem] at href
      exact href.elim
  refine
    { h with
      present := ?_
      unregistered := ?_
      inUse := ?_
      named := ?_
      doomed := ?_
      refs := ?_ }
  · intro ref' hmem
    rcases List.mem_append.mp hmem with hmem | hmem
    · exact h.present ref' hmem
    · exact Or.inl (List.mem_singleton.mp hmem ▸ href)
  · intro ref' hstanding hout
    exact h.unregistered ref' hstanding fun hmem => hout (List.mem_append_left _ hmem)
  · intro c conn hmem hc
    exact h.inUse c conn (hconn hmem) hc
  · intro name c hname
    exact ⟨List.mem_append_left _ (h.named name c hname).1, (h.named name c hname).2⟩
  · intro c hc
    exact ⟨List.mem_append_left _ (h.doomed c hc).1, (h.doomed c hc).2⟩
  · intro ref' href'
    exact List.mem_append_left _ (h.refs ref' href')

end Owned

namespace Quiet

theorem dying (hq : Quiet w w') : w'.dying = w.dying := by
  obtain ⟨extra, hextra, hwrites⟩ := hq.pending
  simp only [World.dying, waiting, hextra, hq.phase, List.filterMap_append,
    Functor.filterMap_destroys_eq_nil hwrites, List.append_nil]

theorem present_iff (hq : Quiet w w') (ref : ChannelRef) : Present w' ref ↔ Present w ref := by
  constructor
  · rintro (hstanding | ⟨c, conn', rfl, hc'⟩)
    · exact Or.inl hstanding
    · obtain ⟨conn, hc, -⟩ := hq.conn_of_some hc'
      exact Or.inr ⟨c, conn, rfl, hc⟩
  · rintro (hstanding | ⟨c, conn, rfl, hc⟩)
    · exact Or.inl hstanding
    · obtain ⟨conn', hc', -⟩ := hq.conn_some c conn hc
      exact Or.inr ⟨c, conn', rfl, hc'⟩

theorem fd_eq (hq : Quiet w w') (ref : ChannelRef) :
    (w'.channels ref).fd = (w.channels ref).fd := by
  obtain ⟨events, hevents⟩ := hq.channels ref
  rw [hevents]
  rfl

theorem index_eq (hq : Quiet w w') (ref : ChannelRef) :
    (w'.channels ref).index = (w.channels ref).index := by
  obtain ⟨events, hevents⟩ := hq.channels ref
  rw [hevents]
  rfl

end Quiet

namespace Owned

/-- What a callback of the user does keeps the invariant. -/
theorem quiet (h : Owned w owners) (hq : Quiet w w') : Owned w' owners where
  present ref href := (hq.present_iff ref).mpr (h.present ref href)
  opened ref href := by
    rw [hq.fd_eq, hq.openFds]
    exact h.opened ref ((hq.present_iff ref).mp href)
  distinct ref ref' href href' heq := by
    rw [hq.fd_eq, hq.fd_eq] at heq
    exact h.distinct ref ref' ((hq.present_iff ref).mp href) ((hq.present_iff ref').mp href') heq
  unregistered ref hstanding hout := by
    rw [hq.index_eq]
    exact h.unregistered ref hstanding hout
  fresh c hc := hq.conn_none c (h.fresh c (hq.nextObj ▸ hc))
  inUse c conn' hmem hc' := by
    obtain ⟨conn, hc, hages⟩ := hq.conn_of_some hc'
    obtain ⟨hopen, howner⟩ := h.inUse c conn hmem hc
    rw [hq.server, hages.1, hq.dying]
    exact ⟨hages.open_iff.mpr hopen, howner⟩
  named name c hname := by
    rw [hq.server] at hname
    obtain ⟨hmem, conn, hc, heq⟩ := h.named name c hname
    obtain ⟨conn', hc', hages⟩ := hq.conn_some c conn hc
    exact ⟨hmem, conn', hc', hages.1.trans heq⟩
  numbered c conn' hc' := by
    obtain ⟨conn, hc, hages⟩ := hq.conn_of_some hc'
    rw [hq.server, hages.1]
    exact h.numbered c conn hc
  unique c₁ c₂ conn₁' conn₂' hc₁' hc₂' heq := by
    obtain ⟨conn₁, hc₁, hages₁⟩ := hq.conn_of_some hc₁'
    obtain ⟨conn₂, hc₂, hages₂⟩ := hq.conn_of_some hc₂'
    rw [hages₁.1, hages₂.1] at heq
    exact h.unique c₁ c₂ conn₁ conn₂ hc₁ hc₂ heq
  functors f hf := by
    obtain ⟨extra, hextra, hwrites⟩ := hq.pending
    simp only [waiting, hextra, hq.phase, List.mem_append] at hf
    rcases hf with (hf | hf) | hf
    · exact h.functors f (List.mem_append_left _ hf)
    · exact Or.inl (hwrites f hf)
    · exact h.functors f (List.mem_append_right _ hf)
  doomed c hc := by
    rw [hq.dying] at hc
    rw [hq.server]
    exact h.doomed c hc
  once := hq.dying ▸ h.once
  refs := hq.phase ▸ h.refs
  swept := hq.trace ▸ h.swept

theorem log (h : Owned w owners) {event : Event}
    (hevent : ∀ ref, event ≠ .removeChannel ref true) : Owned (w.log event) owners := by
  refine { h with swept := ?_ }
  intro ref iterating hmem
  rcases List.mem_append.mp hmem with hmem | hmem
  · exact h.swept ref iterating hmem
  · cases iterating with
    | false => rfl
    | true => exact absurd (List.mem_singleton.mp hmem).symm (hevent ref)

end Owned

namespace Established

variable {fd : Int}

theorem waiting (he : Established w fd w') : w'.waiting 0 = w.waiting 0 := by
  simp only [World.waiting, he.pending, he.phase]

theorem dying (he : Established w fd w') : w'.dying = w.dying := by
  simp only [World.dying, he.waiting]

theorem present_iff (he : Established w fd w') (ref : ChannelRef) :
    Present w' ref ↔ Present w ref ∨ ref = .conn w.nextObj := by
  constructor
  · rintro (hstanding | ⟨c, conn, rfl, hc⟩)
    · exact Or.inl (Or.inl hstanding)
    · by_cases hne : c = w.nextObj
      · exact Or.inr (hne ▸ rfl)
      · rw [he.conns c hne] at hc
        exact Or.inl (Or.inr ⟨c, conn, rfl, hc⟩)
  · rintro ((hstanding | ⟨c, conn, rfl, hc⟩) | rfl)
    · exact Or.inl hstanding
    · by_cases hne : c = w.nextObj
      · obtain ⟨conn', hc', -⟩ := he.conn
        exact Or.inr ⟨c, conn', rfl, hne ▸ hc'⟩
      · exact Or.inr ⟨c, conn, rfl, (he.conns c hne).trans hc⟩
    · obtain ⟨conn, hc, -⟩ := he.conn
      exact Or.inr ⟨_, conn, rfl, hc⟩

/-- The entries after the new one. -/
theorem connections_iff (he : Established w fd w') (name : String) (c : Nat) :
    w'.server.connections[name]? = some c ↔
      name = connName w.server ∧ c = w.nextObj ∨
        name ≠ connName w.server ∧ w.server.connections[name]? = some c := by
  rw [he.server, Std.ExtTreeMap.getElem?_insert]
  by_cases hname : name = connName w.server
  · rw [if_pos (by simp [hname])]
    simp [hname, eq_comm]
  · rw [if_neg fun heq => hname (Std.LawfulEqCmp.eq_of_compare heq).symm]
    simp [hname]

end Established

namespace Owned

theorem present_ne_nextObj (h : Owned w owners) {ref : ChannelRef} (href : Present w ref) :
    ref ≠ .conn w.nextObj := by
  rintro rfl
  rcases href with hstanding | ⟨c, conn, heq, hc⟩
  · exact hstanding
  · exact h.ne_nextObj hc (ChannelRef.conn.inj heq).symm

/-- A connection on a new descriptor joins the registered channels. -/
theorem established (h : Owned w owners) {fd : Int} (hfd : 0 ≤ fd) (hfree : fd ∉ w.openFds)
    (he : Established w fd w') : Owned w' (owners ++ [.conn w.nextObj]) where
  present ref hmem := by
    rw [he.present_iff]
    rcases List.mem_append.mp hmem with hmem | hmem
    · exact Or.inl (h.present ref hmem)
    · exact Or.inr (List.mem_singleton.mp hmem)
  opened ref href := by
    rw [he.openFds, Finset.mem_insert]
    rcases (he.present_iff ref).mp href with href | rfl
    · rw [he.channels ref (h.present_ne_nextObj href)]
      exact ⟨(h.opened ref href).1, Or.inr (h.opened ref href).2⟩
    · rw [he.fd]
      exact ⟨hfd, Or.inl rfl⟩
  distinct ref ref' href href' heq := by
    have hnew {r : ChannelRef} (hr : Present w r) : (w'.channels r).fd ≠ fd := by
      intro hr'
      rw [he.channels r (h.present_ne_nextObj hr)] at hr'
      exact hfree (hr' ▸ (h.opened r hr).2)
    rcases (he.present_iff ref).mp href with href | rfl
    · rcases (he.present_iff ref').mp href' with href' | rfl
      · rw [he.channels ref (h.present_ne_nextObj href),
          he.channels ref' (h.present_ne_nextObj href')] at heq
        exact h.distinct ref ref' href href' heq
      · exact absurd (heq.trans he.fd) (hnew href)
    · rcases (he.present_iff ref').mp href' with href' | rfl
      · exact absurd (heq.symm.trans he.fd) (hnew href')
      · rfl
  unregistered ref hstanding hout := by
    rw [he.channels ref (h.present_ne_nextObj (Or.inl hstanding))]
    exact h.unregistered ref hstanding fun hmem => hout (List.mem_append_left _ hmem)
  fresh c hc := by
    rw [he.nextObj] at hc
    rw [he.conns c (by omega)]
    exact h.fresh c (by omega)
  inUse c conn hmem hc := by
    rw [he.dying, he.connections_iff]
    by_cases hne : c = w.nextObj
    · obtain ⟨conn', hc', hname, hstate⟩ := he.conn
      obtain rfl : conn = conn' := Option.some.inj (hc.symm.trans (hne ▸ hc'))
      exact ⟨Or.inl hstate, Or.inl (Or.inl ⟨hname, hne⟩)⟩
    · rw [he.conns c hne] at hc
      have hmem' : .conn c ∈ owners := by simpa [hne] using hmem
      obtain ⟨hopen, howner⟩ := h.inUse c conn hmem' hc
      refine ⟨hopen, ?_⟩
      rcases howner with hlisted | hdying
      · exact Or.inl (Or.inr ⟨h.name_ne_connName hc, hlisted⟩)
      · exact Or.inr hdying
  named name c hname := by
    rcases (he.connections_iff name c).mp hname with ⟨rfl, rfl⟩ | ⟨-, hname⟩
    · obtain ⟨conn, hc, heq, -⟩ := he.conn
      exact ⟨List.mem_append_right _ (List.mem_singleton.mpr rfl), conn, hc, heq⟩
    · obtain ⟨hmem, conn, hc, heq⟩ := h.named name c hname
      exact ⟨List.mem_append_left _ hmem, conn, (he.conns c (h.ne_nextObj hc)).trans hc, heq⟩
  numbered c conn hc := by
    rw [he.server]
    by_cases hne : c = w.nextObj
    · obtain ⟨conn', hc', hname, -⟩ := he.conn
      obtain rfl : conn = conn' := Option.some.inj (hc.symm.trans (hne ▸ hc'))
      exact ⟨w.server.nextConnId, Nat.lt_succ_self _, hname⟩
    · rw [he.conns c hne] at hc
      obtain ⟨k, hk, heq⟩ := h.numbered c conn hc
      exact ⟨k, Nat.lt_succ_of_lt hk, heq⟩
  unique c c' conn conn' hc hc' heq := by
    have hnew {d : Nat} {old conn'' : TcpConnection} (hd : w.conns d = some old)
        (hn : w'.conns w.nextObj = some conn'') : old.name ≠ conn''.name := by
      obtain ⟨conn₁, hc₁, hname, -⟩ := he.conn
      obtain rfl : conn'' = conn₁ := Option.some.inj (hn.symm.trans hc₁)
      rw [hname]
      exact h.name_ne_connName hd
    by_cases hne : c = w.nextObj
    · by_cases hne' : c' = w.nextObj
      · rw [hne, hne']
      · rw [he.conns c' hne'] at hc'
        exact absurd heq.symm (hnew hc' (hne ▸ hc))
    · rw [he.conns c hne] at hc
      by_cases hne' : c' = w.nextObj
      · exact absurd heq (hnew hc (hne' ▸ hc'))
      · rw [he.conns c' hne'] at hc'
        exact h.unique c c' conn conn' hc hc' heq
  functors f hf := h.functors f (he.waiting ▸ hf)
  doomed c hc := by
    rw [he.dying] at hc
    obtain ⟨hmem, hunlisted⟩ := h.doomed c hc
    refine ⟨List.mem_append_left _ hmem, ?_⟩
    intro name hname
    rcases (he.connections_iff name c).mp hname with ⟨-, rfl⟩ | ⟨-, hname⟩
    · exact h.nextObj_not_mem hmem
    · exact hunlisted name hname
  once := he.dying ▸ h.once
  refs ref href := by
    rw [he.phase] at href
    exact List.mem_append_left _ (h.refs ref href)
  swept ref iterating hmem := by
    rw [he.trace] at hmem
    exact h.swept ref iterating (by simpa using hmem)

end Owned

namespace Closed

variable {c : Nat} {name : String}

theorem connections_iff (hcl : Closed w c name w') (name' : String) (c' : Nat) :
    w'.server.connections[name']? = some c' ↔
      name' ≠ name ∧ w.server.connections[name']? = some c' := by
  rw [hcl.server, Std.ExtTreeMap.getElem?_erase]
  by_cases hname : name' = name
  · rw [if_pos (by simp [hname])]
    simp [hname]
  · rw [if_neg fun heq => hname (Std.LawfulEqCmp.eq_of_compare heq).symm]
    simp [hname]

theorem dying_perm (hcl : Closed w c name w') : w'.dying.Perm (c :: w.dying) := by
  simp only [World.dying, waiting, hcl.pending, hcl.phase, List.filterMap_append]
  simp only [List.filterMap_cons, List.filterMap_nil, Functor.destroys, List.append_assoc]
  exact List.perm_middle

theorem present_iff (hcl : Closed w c name w') (ref : ChannelRef) :
    Present w' ref ↔ Present w ref := by
  simp only [Present, hcl.conns]

end Closed

namespace Owned

/-- A closed connection changes its owner. -/
theorem closed (h : Owned w owners) {c : Nat} {conn : TcpConnection}
    (hmem : .conn c ∈ owners) (hc : w.conns c = some conn) (hcl : Closed w c conn.name w') :
    Owned w' owners where
  present ref href := (hcl.present_iff ref).mpr (h.present ref href)
  opened ref href := by
    rw [hcl.channels, hcl.openFds]
    exact h.opened ref ((hcl.present_iff ref).mp href)
  distinct ref ref' href href' heq := by
    rw [hcl.channels] at heq
    exact h.distinct ref ref' ((hcl.present_iff ref).mp href) ((hcl.present_iff ref').mp href') heq
  unregistered ref hstanding hout := by
    rw [hcl.channels]
    exact h.unregistered ref hstanding hout
  fresh c' hc' := by
    rw [hcl.conns]
    exact h.fresh c' (hcl.nextObj ▸ hc')
  inUse c' conn' hmem' hc' := by
    rw [hcl.conns] at hc'
    obtain ⟨hopen, howner⟩ := h.inUse c' conn' hmem' hc'
    refine ⟨hopen, ?_⟩
    rw [hcl.connections_iff, hcl.dying_perm.mem_iff, List.mem_cons]
    by_cases hname : conn'.name = conn.name
    · exact Or.inr (Or.inl (h.unique c' c conn' conn hc' hc hname))
    · exact howner.imp (fun hlisted => ⟨hname, hlisted⟩) Or.inr
  named name c' hname := by
    rw [hcl.conns]
    exact h.named name c' ((hcl.connections_iff name c').mp hname).2
  numbered c' conn' hc' := by
    rw [hcl.conns] at hc'
    rw [hcl.server]
    exact h.numbered c' conn' hc'
  unique := by
    rw [hcl.conns]
    exact h.unique
  functors f hf := by
    simp only [waiting, hcl.pending, hcl.phase, List.mem_append, List.mem_singleton] at hf
    rcases hf with (hf | rfl) | hf
    · exact h.functors f (List.mem_append_left _ hf)
    · exact Or.inr ⟨c, rfl⟩
    · exact h.functors f (List.mem_append_right _ hf)
  doomed c' hc' := by
    have hunlisted : ∀ name : String, w'.server.connections[name]? = some c' →
        w.server.connections[name]? = some c' ∧ name ≠ conn.name :=
      fun name hname => ((hcl.connections_iff name c').mp hname).symm
    rcases List.mem_cons.mp (hcl.dying_perm.mem_iff.mp hc') with rfl | hc'
    · refine ⟨hmem, ?_⟩
      intro name hname
      obtain ⟨hold, hne⟩ := hunlisted name hname
      obtain ⟨-, conn', hconn', heq⟩ := h.named name c' hold
      obtain rfl : conn = conn' := Option.some.inj (hc.symm.trans hconn')
      exact hne heq.symm
    · refine ⟨(h.doomed c' hc').1, ?_⟩
      intro name hname
      exact (h.doomed c' hc').2 name (hunlisted name hname).1
  once := by
    rw [hcl.dying_perm.nodup_iff, List.nodup_cons]
    refine ⟨?_, h.once⟩
    intro hdying
    exact (h.doomed c hdying).2 conn.name (h.listed_of_mem hc hcl.listed)
  refs := hcl.phase ▸ h.refs
  swept ref iterating hmem := by
    rw [hcl.trace] at hmem
    exact h.swept ref iterating (by simpa using hmem)

end Owned

namespace Destroyed

variable {c : Nat} {rest : List Functor}

/-- The executed functor has left the waiting ones, and none has joined that
destroys a connection. -/
theorem dying_perm (hphase : (w.reactors 0).phase = .functors (.destroyConnection c :: rest))
    (hd : Destroyed (w.setPhase 0 (.functors rest)) owners c w') :
    w.dying.Perm (c :: w'.dying) := by
  obtain ⟨extra, hextra, hwrites⟩ := hd.pending
  rw [event_setPhase] at hextra
  have hphase' := hd.phase
  rw [phase_setPhase_self] at hphase'
  simp only [World.dying, waiting, hphase, hphase', hextra, Phase.rest, List.filterMap_append,
    Functor.filterMap_destroys_eq_nil hwrites, List.append_nil]
  simp only [List.filterMap_cons, Functor.destroys]
  exact List.perm_middle

/-- Every connection is still there, under its name. -/
theorem conn_of_some (hd : Destroyed w owners c w') {c' : Nat} {conn' : TcpConnection}
    (hc' : w'.conns c' = some conn') : ∃ conn, w.conns c' = some conn ∧
      conn'.name = conn.name ∧ (c' ≠ c → conn.Ages conn') := by
  by_cases heq : c' = c
  · subst heq
    obtain ⟨conn, conn'', hc, hc'', hname, -⟩ := hd.conn
    rw [hc'] at hc''
    exact ⟨conn, hc, Option.some.inj hc'' ▸ hname, fun hne => absurd rfl hne⟩
  · cases hc : w.conns c' with
    | none =>
        rw [hd.conn_none c' hc] at hc'
        cases hc'
    | some conn =>
        obtain ⟨conn'', hc'', hages⟩ := hd.conn_some c' conn heq hc
        rw [hc'] at hc''
        obtain rfl := Option.some.inj hc''
        exact ⟨conn, rfl, hages.1, fun _ => hages⟩

theorem present_iff (hd : Destroyed w owners c w') (ref : ChannelRef) :
    Present w' ref ↔ Present w ref := by
  constructor
  · rintro (hstanding | ⟨c', conn', rfl, hc'⟩)
    · exact Or.inl hstanding
    · obtain ⟨conn, hc, -⟩ := hd.conn_of_some hc'
      exact Or.inr ⟨c', conn, rfl, hc⟩
  · rintro (hstanding | ⟨c', conn, rfl, hc⟩)
    · exact Or.inl hstanding
    · by_cases heq : c' = c
      · subst heq
        obtain ⟨-, conn', -, hc', -⟩ := hd.conn
        exact Or.inr ⟨c', conn', rfl, hc'⟩
      · obtain ⟨conn', hc', -⟩ := hd.conn_some c' conn heq hc
        exact Or.inr ⟨c', conn', rfl, hc'⟩

end Destroyed

namespace Owned

/-- A destroyed connection leaves the registered channels. -/
theorem destroyed (h : Owned w owners) (hnodup : owners.Nodup) {c i : Nat}
    {rest : List Functor} (hi : owners[i]? = some (.conn c))
    (hphase : (w.reactors 0).phase = .functors (.destroyConnection c :: rest))
    (hd : Destroyed (w.setPhase 0 (.functors rest)) owners c w') :
    Owned w' (swapRemove owners i) := by
  have hmem (ref : ChannelRef) : ref ∈ swapRemove owners i ↔ ref ∈ owners ∧ ref ≠ .conn c :=
    mem_swapRemove hnodup hi ref
  have hperm := hd.dying_perm hphase
  have honce := hperm.nodup_iff.mp h.once
  have hc : c ∈ w.dying := hperm.mem_iff.mpr (List.mem_cons_self ..)
  have hserver : w'.server = w.server := hd.server
  have hphase' := hd.phase
  rw [phase_setPhase_self] at hphase'
  constructor
  · intro ref href
    exact (hd.present_iff ref).mpr (h.present ref ((hmem ref).mp href).1)
  · intro ref href
    rw [hd.fd, hd.openFds]
    exact h.opened ref ((hd.present_iff ref).mp href)
  · intro ref ref' href href' heq
    rw [hd.fd, hd.fd] at heq
    exact h.distinct ref ref' ((hd.present_iff ref).mp href) ((hd.present_iff ref').mp href') heq
  · intro ref hstanding hout
    have hout' : ref ∉ owners := by
      intro href
      refine hout ((hmem ref).mpr ⟨href, ?_⟩)
      rintro rfl
      exact hstanding
    rw [hd.index ref hout']
    exact h.unregistered ref hstanding hout'
  · intro c' hc'
    exact hd.conn_none c' (h.fresh c' (hd.nextObj ▸ hc'))
  · intro c' conn' hmem' hc'
    obtain ⟨hold, hne⟩ := (hmem _).mp hmem'
    obtain ⟨conn, hconn, hname, hages⟩ := hd.conn_of_some hc'
    obtain ⟨hopen, howner⟩ := h.inUse c' conn hold hconn
    have hne' : c' ≠ c := fun heq => hne (heq ▸ rfl)
    refine ⟨(hages hne').open_iff.mpr hopen, ?_⟩
    rw [hname, hserver]
    refine howner.imp_right fun hdying => ?_
    exact (List.mem_cons.mp (hperm.mem_iff.mp hdying)).resolve_left hne'
  · intro name c' hname
    rw [hserver] at hname
    obtain ⟨hold, conn, hconn, heq⟩ := h.named name c' hname
    have hne : c' ≠ c := by
      rintro rfl
      exact (h.doomed c' hc).2 name hname
    obtain ⟨conn', hc', hages⟩ := hd.conn_some c' conn hne hconn
    exact ⟨(hmem _).mpr ⟨hold, fun heq' => hne (ChannelRef.conn.inj heq')⟩, conn', hc',
      hages.1.trans heq⟩
  · intro c' conn' hc'
    obtain ⟨conn, hconn, hname, -⟩ := hd.conn_of_some hc'
    rw [hname, hserver]
    exact h.numbered c' conn hconn
  · intro c₁ c₂ conn₁' conn₂' hc₁' hc₂' heq
    obtain ⟨conn₁, hconn₁, hname₁, -⟩ := hd.conn_of_some hc₁'
    obtain ⟨conn₂, hconn₂, hname₂, -⟩ := hd.conn_of_some hc₂'
    rw [hname₁, hname₂] at heq
    exact h.unique c₁ c₂ conn₁ conn₂ hconn₁ hconn₂ heq
  · intro f hf
    obtain ⟨extra, hextra, hwrites⟩ := hd.pending
    rw [event_setPhase] at hextra
    simp only [waiting, hextra, hphase', Phase.rest, List.mem_append] at hf
    rcases hf with (hf | hf) | hf
    · exact h.functors f (List.mem_append_left _ hf)
    · exact Or.inl (hwrites f hf)
    · apply h.functors f
      rw [waiting, hphase]
      exact List.mem_append_right _ (List.mem_cons_of_mem _ hf)
  · intro c' hc'
    obtain ⟨hold, hunlisted⟩ := h.doomed c' (hperm.mem_iff.mpr (List.mem_cons_of_mem _ hc'))
    rw [hserver]
    refine ⟨(hmem _).mpr ⟨hold, ?_⟩, hunlisted⟩
    intro heq
    exact (List.nodup_cons.mp honce).1 (ChannelRef.conn.inj heq ▸ hc')
  · exact (List.nodup_cons.mp honce).2
  · rw [hphase']
    simp [Phase.refs]
  · intro ref iterating hevent
    rw [hd.trace, phase_setPhase_self] at hevent
    rcases List.mem_append.mp hevent with hevent | hevent
    · exact h.swept ref iterating hevent
    · have hlast : ref = .conn c ∧ iterating = false := by
        simpa [Phase.iterating] using hevent
      exact hlast.2

end Owned

/-- The objects of the server are the same, and what waits for the base loop,
but for write-complete callbacks. -/
structure Steady (w w' : World) : Prop where
  conns : w'.conns = w.conns
  fd : ∀ ref, (w'.channels ref).fd = (w.channels ref).fd
  openFds : w'.openFds = w.openFds
  nextObj : w'.nextObj = w.nextObj
  name : w'.server.name = w.server.name
  nextConnId : w'.server.nextConnId = w.server.nextConnId
  connections : w'.server.connections = w.server.connections
  waiting : ∀ f ∈ w'.waiting 0, f ∈ w.waiting 0
  dying : w'.dying = w.dying
  trace : w'.trace = w.trace

theorem Steady.present_iff (hs : Steady w w') (ref : ChannelRef) :
    Present w' ref ↔ Present w ref := by
  simp only [Present, hs.conns]

/-- A step of `loop` itself keeps the invariant. -/
theorem Owned.steady (h : Owned w owners) (hs : Steady w w')
    (hindex : ∀ ref, ref ∉ owners → (w'.channels ref).index = (w.channels ref).index)
    (hrefs : ∀ ref ∈ (w'.reactors 0).phase.refs, ref ∈ owners) : Owned w' owners where
  present ref href := (hs.present_iff ref).mpr (h.present ref href)
  opened ref href := by
    rw [hs.fd, hs.openFds]
    exact h.opened ref ((hs.present_iff ref).mp href)
  distinct ref ref' href href' heq := by
    rw [hs.fd, hs.fd] at heq
    exact h.distinct ref ref' ((hs.present_iff ref).mp href) ((hs.present_iff ref').mp href') heq
  unregistered ref hstanding hout := by
    rw [hindex ref hout]
    exact h.unregistered ref hstanding hout
  fresh c hc := by
    rw [hs.conns]
    exact h.fresh c (hs.nextObj ▸ hc)
  inUse := by
    rw [hs.conns, hs.connections, hs.dying]
    exact h.inUse
  named := by
    rw [hs.conns, hs.connections]
    exact h.named
  numbered := by
    rw [hs.conns, hs.name, hs.nextConnId]
    exact h.numbered
  unique := by
    rw [hs.conns]
    exact h.unique
  functors f hf := h.functors f (hs.waiting f hf)
  doomed := by
    rw [hs.dying, hs.connections]
    exact h.doomed
  once := hs.dying ▸ h.once
  refs := hrefs
  swept := hs.trace ▸ h.swept

/-- The server or a waiting functor points to a registered connection. -/
theorem Owned.owned_of_mem (h : Owned w owners) {c : Nat} (hmem : .conn c ∈ owners) :
    w.owned c = true := by
  obtain ⟨conn, hc, -⟩ := h.conn_of_mem hmem
  rw [owned, Bool.or_eq_true]
  rcases (h.inUse c conn hmem hc).2 with hlisted | hdying
  · left
    rw [List.any_eq_true]
    exact ⟨(conn.name, c), Std.ExtTreeMap.mem_toList_iff_getElem?_eq_some.mpr hlisted, by simp⟩
  · right
    obtain ⟨f, hf, hdestroys⟩ := List.mem_filterMap.mp hdying
    rw [Functor.destroys_eq_some] at hdestroys
    rw [List.any_eq_true]
    refine ⟨0, List.mem_cons_self .., ?_⟩
    rw [List.any_eq_true]
    exact ⟨f, hf, by simp [hdestroys, Functor.owns]⟩

/-- The last pointer to a connection goes away after its channel was removed. -/
theorem Owned.destroy (h : Owned w owners) (c : Nat) : Owned (w.destroy c) owners := by
  unfold World.destroy
  split
  · exact h
  · rename_i conn hc
    split
    · exact h
    · rename_i hfree
      have hout : .conn c ∉ owners := fun hmem => hfree (h.owned_of_mem hmem)
      have hconns {c' : Nat} {conn' : TcpConnection}
          (hc' : (w.setConn c none).conns c' = some conn') :
          c' ≠ c ∧ w.conns c' = some conn' := by
        have hne : c' ≠ c := by
          rintro rfl
          rw [setConn_self] at hc'
          cases hc'
        exact ⟨hne, (setConn_of_ne w hne none).symm.trans hc'⟩
      have hkeep {c' : Nat} {conn' : TcpConnection} (hne : c' ≠ c) (hc' : w.conns c' = some conn') :
          (w.setConn c none).conns c' = some conn' := (setConn_of_ne w hne none).trans hc'
      have hpresent {ref : ChannelRef} (href : Present (w.setConn c none) ref) :
          Present w ref ∧ ref ≠ .conn c := by
        rcases href with hstanding | ⟨c', conn', rfl, hc'⟩
        · refine ⟨Or.inl hstanding, ?_⟩
          rintro rfl
          exact hstanding
        · obtain ⟨hne, hold⟩ := hconns hc'
          exact ⟨Or.inr ⟨c', conn', rfl, hold⟩, fun heq => hne (ChannelRef.conn.inj heq)⟩
      refine
        { h with
          present := ?_
          opened := ?_
          distinct := ?_
          fresh := ?_
          inUse := ?_
          named := ?_
          numbered := ?_
          unique := ?_ }
      · intro ref hmem
        rcases h.present ref hmem with hstanding | ⟨c', conn', rfl, hc'⟩
        · exact Or.inl hstanding
        · refine Or.inr ⟨c', conn', rfl, hkeep ?_ hc'⟩
          rintro rfl
          exact hout hmem
      · intro ref href
        obtain ⟨hold, hne⟩ := hpresent href
        refine ⟨(h.opened ref hold).1, Finset.mem_erase.mpr ⟨?_, (h.opened ref hold).2⟩⟩
        intro heq
        exact hne (h.distinct ref (.conn c) hold (Or.inr ⟨c, conn, rfl, hc⟩) heq)
      · intro ref ref' href href' heq
        exact h.distinct ref ref' (hpresent href).1 (hpresent href').1 heq
      · intro c' hc'
        by_cases heq : c' = c
        · subst heq
          exact setConn_self ..
        · exact (setConn_of_ne w heq none).trans (h.fresh c' hc')
      · intro c' conn' hmem hc'
        exact h.inUse c' conn' hmem (hconns hc').2
      · intro name c' hname
        obtain ⟨hmem, conn', hc', heq⟩ := h.named name c' hname
        refine ⟨hmem, conn', hkeep ?_ hc', heq⟩
        rintro rfl
        exact hout hmem
      · intro c' conn' hc'
        exact h.numbered c' conn' (hconns hc').2
      · intro c₁ c₂ conn₁ conn₂ hc₁ hc₂ heq
        exact h.unique c₁ c₂ conn₁ conn₂ (hconns hc₁).2 (hconns hc₂).2 heq

end World

end Yatwb
