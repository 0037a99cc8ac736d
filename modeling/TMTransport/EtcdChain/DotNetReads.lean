import TMTransport.EtcdChain.Reads

/-!
# What the C# readers return

As in C++, but for `GetRange`: the record asked for comes first among those whose
keys it is a prefix of, provided it is there at all.
-/

namespace EtcdChain.DotNet

open Etcd Interleave LinkedStore

section Reads

variable {T : Type} [Inhabited T] {Γ : Setting T} {opt : Options} {n : Nat} {c : Req T}
  {log₀ : List (Commit T)} {st : State × Ghost T} {cur : ChainItem T} {id : String}

/-- Reading an item from etcd fails only if it had not been appended when the call began. -/
theorem itemFromEtcd_meets (who : String) (h₀ : log₀ <+: st.2.log)
    (hl : (∀ o st', Γ.guard.op c o st' →
        LoadsItem Γ.cfg id st'.2.log ∧ LoadsExact Γ.cfg id st'.1.etcd) ∨
      id ∈ (appended log₀).map Prod.fst) :
    Γ.Meets n c (fun it st' => it.id = id ∧ Γ.Got log₀ it st')
      (fun _ _ => id ∉ (appended log₀).map Prod.fst)
      (itemFromEtcd Γ.cfg Γ.cd who id) st := by
  unfold itemFromEtcd
  by_cases hsep : Γ.cfg.saveDataOnSeparateStorage = true
  · rw [if_pos hsep]
    refine meets_itemTxn h₀ hsep (hl.imp_left fun h o st' hg => (h o st' hg).1)
      (fun ckv dkv d hd => ?_) (fun ckvs dkvs hnil => ?_)
    · simp only [responseRange, Prog.ret_bind, if_true, hd, Γ.cd.data.parse_serialize]
      rfl
    · simp only [responseRange, Prog.ret_bind, if_true]
      cases ckvs with
      | nil => exact ⟨_, rfl⟩
      | cons ckv rest =>
          rw [hnil.resolve_left (List.cons_ne_nil _ _)]
          exact ⟨_, rfl⟩
  · have hsep' : Γ.cfg.saveDataOnSeparateStorage = false := by simpa using hsep
    rw [if_neg hsep]
    refine meets_rangePrefix (fun st' hm hi hg => ?_)
    have hp := h₀.trans hm.extends
    rcases record_inline id hi.1 hsep' with ⟨kv, d, next, h1, h2, h3, h4, h5⟩ | ⟨hn, habs⟩
    · obtain ⟨rest, hrest⟩ := rangePrefix_of_mem hi.1.sound h1
      simp only [hrest, Prog.ret_bind, h2, Γ.cd.mapData.parse_serialize]
      refine Safe.ret ⟨rfl, ?_⟩ (fun _ _ hr _ h => ⟨h.1, h.2.stable hr⟩)
      exact Setting.got_of_link hp h3 h1 (h2.trans (linkVal_inline hsep' d _).symm) h5 rfl h4
        (hi.1.sound _ _ h1).2.1
    · rcases hl with hl | hl
      · simp only [(hl _ st' hg).2 hsep' habs, Prog.ret_bind]
        exact fun _ _ _ => notMem_of_extends hp hn
      · exact absurd hl (notMem_of_extends hp hn)

theorem nextIDFromEtcd_meets (h₀ : log₀ <+: st.2.log) (hcur : Γ.KnownAt cur st) :
    Γ.Meets n c (fun next st' => Γ.GotNext log₀ cur.id next st') (fun _ _ => False)
      (nextIDFromEtcd Γ.cfg Γ.cd cur) st := by
  unfold nextIDFromEtcd
  by_cases hn : cur.nextID = ""
  · rw [if_pos hn]
    refine (meets_link h₀ hcur.on hcur.there ?_).2
    intro st' kv rest d next hs hi hkv hval hd hf _
    exact nextOfLink_meets hval (Γ.gotNext_of_follows hs hf)
  · rw [if_neg hn]
    exact Safe.ret (Γ.gotNext_of_known h₀ hcur hn) (fun _ _ hr _ h => h.stable hr)

theorem fetchNextFromEtcd_meets (h₀ : log₀ <+: st.2.log) (hi : Γ.Inv st)
    (hcur : Γ.KnownAt cur st) :
    Γ.Meets n c (fun r st' => Γ.GotItem log₀ cur.id r st') (fun _ _ => False)
      (fetchNextFromEtcd Γ.cfg Γ.cd cur) st :=
  itemAfter_meets hi (nextIDFromEtcd_meets h₀ hcur) fun _ _ hmem =>
    itemFromEtcd_meets "FetchNext" (List.prefix_refl _) (Or.inr hmem)

theorem fromRedis_meets (hw : ∀ o st', Γ.guard.op c o st' → KeysWhole o) (id : String)
    (st : State × Ghost T) :
    Γ.Meets n c (fun r st' => ∀ it, r = some it → Γ.Cached id it st') (fun _ _ => False)
      (fromRedis Γ.cfg Γ.cd id) st :=
  cached_meets hw rfl (fun rev d next => by simp [Γ.cd.redis.parse_serialize])

theorem fetchNext_meets
    (hw : opt.duplicateFromRedis = true → ∀ o st', Γ.guard.op c o st' → KeysWhole o)
    (h₀ : log₀ <+: st.2.log) (hi : Γ.Inv st) (hcur : Γ.KnownAt cur st) :
    Γ.Meets n c (fun r st' => Γ.GotItem log₀ cur.id r st') (fun _ _ => False)
      (fetchNext Γ.cfg opt Γ.cd cur) st := by
  refine nextOrElse_meets hi ?_ (fun _ _ h => h) (fun _ => fetchNextFromEtcd_meets)
  refine nextIfCached_meets h₀ hcur fun hdup => ?_
  exact nextCached_meets h₀ hi hcur (fun id st => fromRedis_meets (hw hdup) id st)

theorem headFromEtcd_meets {defaultData : T} (hH : Γ.H defaultData) (h₀ : log₀ <+: st.2.log) :
    Γ.Meets n c (fun it st' => it.id = Γ.cfg.headKey ∧ Γ.Got log₀ it st') (fun _ _ => False)
      (headFromEtcd Γ.cfg Γ.cd defaultData) st := by
  have hempty : emptyHeadData Γ.cfg Γ.cd defaultData =
      (layout Γ.cfg Γ.cd).linkVal defaultData "" := by
    unfold emptyHeadData
    by_cases hsep : Γ.cfg.saveDataOnSeparateStorage = true
    · rw [if_pos hsep, linkVal_separate hsep]
    · rw [if_neg hsep, linkVal_inline (by simpa using hsep)]
  unfold headFromEtcd
  rw [Prog.bind_eq]
  refine meets_head h₀ (fun st' _ => Or.inl ⟨defaultData, hH, hempty⟩) ?_
  intro st' kv d next resp hs hi hkv hval hd hf hresp
  rcases hresp with rfl | ⟨rev, hnil, rfl⟩
  · simp only [Prog.ret_bind, if_true, List.getElem?_cons_zero, responseRange, headItem,
      Bool.not_true, Bool.false_eq_true, if_false]
    by_cases hsep : Γ.cfg.saveDataOnSeparateStorage = true
    · rw [if_pos hsep]
      have hv : kv.value = next := by rw [hval, linkVal_separate hsep]
      refine Safe.ret ⟨rfl, ?_⟩ (fun _ _ hr _ h => ⟨h.1, h.2.stable hr⟩)
      exact Setting.got_head (d := d) hs hi hkv (by rw [linkVal_separate hsep])
        (hv ▸ hf) rfl rfl rfl hH
    · have hsep' : Γ.cfg.saveDataOnSeparateStorage = false := by simpa using hsep
      rw [if_neg hsep, hval, linkVal_inline hsep', if_neg (Γ.cd.mapData_ne _),
        Γ.cd.mapData.parse_serialize]
      refine Safe.ret ⟨rfl, ?_⟩ (fun _ _ hr _ h => ⟨h.1, h.2.stable hr⟩)
      exact Setting.got_head (d := d) hs hi hkv hval hf rfl rfl rfl hH
  · subst hnil
    simp only [Prog.ret_bind, Bool.false_eq_true, if_false, List.getElem?_cons_succ,
      List.getElem?_cons_zero, responseRange, headItem, Bool.not_false, if_true]
    refine Safe.ret ⟨rfl, ?_⟩ (fun _ _ hr _ h => ⟨h.1, h.2.stable hr⟩)
    exact Setting.got_head (d := d) hs hi hkv hval hf rfl rfl rfl hH

theorem head_meets {defaultData : T} (hH : ∀ d, Γ.H d)
    (hw : opt.duplicateFromRedis = true → ∀ o st', Γ.guard.op c o st' → KeysWhole o)
    (h₀ : log₀ <+: st.2.log) (hi : Γ.Inv st) :
    Γ.Meets n c (fun it st' => it.id = Γ.cfg.headKey ∧ Γ.Got log₀ it st') (fun _ _ => False)
      (head Γ.cfg opt Γ.cd defaultData) st := by
  unfold head
  by_cases hdup : opt.duplicateFromRedis = true
  · rw [if_pos hdup]
    have hF : ∀ (m : Nat) (s s' : State × Ghost T), Moves m s.1.etcd s.2 s'.1.etcd s'.2 →
        log₀ <+: s.2.log → log₀ <+: s'.2.log := fun m s s' hr h => h.trans hr.extends
    refine Safe.bind (((fromRedis_meets (hw hdup) _ st).frame h₀ hF).mono
      (fun _ _ _ h => h) (fun _ _ _ h => h.1)) ?_ hi
    rintro r st' _ ⟨hc, hs⟩
    cases r with
    | none => exact headFromEtcd_meets (hH defaultData) hs
    | some it =>
        have hk := (hc it rfl).known
        have hid := (hc it rfl).id
        have hg : it.id = Γ.cfg.headKey ∧
            Γ.Got log₀ { it with data := some defaultData } st' :=
          ⟨hid, hs, ⟨hk.on, hk.there, ⟨defaultData, rfl, Or.inl ⟨hid, hH _⟩⟩, hk.next, hk.rev_le,
            hk.unchanged⟩, fun hn => absurd hn (hc it rfl).next⟩
        exact Safe.ret hg (fun _ _ hr _ h => ⟨h.1, h.2.stable hr⟩)
  · rw [if_neg hdup]
    exact headFromEtcd_meets (hH defaultData) h₀

theorem loadUntil_meets {defaultData : T} (hne : id ≠ "")
    (hw : opt.duplicateFromRedis = true → ∀ o st', Γ.guard.op c o st' → KeysWhole o)
    (hl : (∀ o st', Γ.guard.op c o st' →
        LoadsItem Γ.cfg id st'.2.log ∧ LoadsExact Γ.cfg id st'.1.etcd) ∨
      id ∈ (appended log₀).map Prod.fst)
    (h₀ : log₀ <+: st.2.log) (hi : Γ.Inv st) :
    Γ.Meets n c (fun it st' => it.id = id ∧ Γ.Got log₀ it st')
      (fun _ _ => id ∉ (appended log₀).map Prod.fst)
      (loadUntil Γ.cfg opt Γ.cd id defaultData) st := by
  unfold loadUntil
  rw [if_neg hne]
  by_cases hdup : opt.duplicateFromRedis = true
  · rw [if_pos hdup]
    exact orElse_meets h₀ hi (fromRedis_meets (hw hdup) _ st)
      (fun st hs => itemFromEtcd_meets "LoadUntil" hs hl)
  · rw [if_neg hdup]
    exact itemFromEtcd_meets "LoadUntil" h₀ hl

end Reads

end EtcdChain.DotNet
