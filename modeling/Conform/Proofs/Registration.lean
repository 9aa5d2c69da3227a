import Mathlib.Logic.Relation
import Conform.Plugin

/-!
# Registering plugins

A registry is used by calls that register a plugin, add a rule or clear it. What a plugin
does while it is installed is made of such calls too. Unless it clears the registry, that
adds rules, and notes names that were free, at the end.

A registration may fault because the name is taken, which changes nothing, or because the
installation does. The name has been noted by then. It stays, with all that was added, and
no plugin of the name is registered until the registry is cleared.

## Main results

* `Grows.extends` — what was there stays in front.
* `registration_fault` — what a registration that faults leaves behind.
-/

namespace Conform

/-- A call that changes a registry. -/
inductive Command where
  | register (p : Plugin)
  | addRule (rule : Rule)
  | clear

namespace PluginRegistry

/-! ## Calls -/

/-- What a call leaves behind, whether it faults or not. -/
def after (r : PluginRegistry) : Command → PluginRegistry
  | .register p => (r.register p).2
  | .addRule rule => r.addRule rule
  | .clear => r.clear

/-- What calls leave behind one after another, each whether it faults or not. -/
def replay (r : PluginRegistry) (calls : List Command) : PluginRegistry := calls.foldl after r

/-- What is added to a registry at a time: a rule, or a name that was free. -/
inductive Step : PluginRegistry → PluginRegistry → Prop
  | addRule (r : PluginRegistry) (rule : Rule) : Step r (r.addRule rule)
  | note {r : PluginRegistry} {name : String} (hfree : r.has name = false) :
      Step r { r with plugins := r.plugins ++ [name] }

/-- What is added to a registry. -/
abbrev Grows : PluginRegistry → PluginRegistry → Prop := Relation.ReflTransGen Step

variable {r r' : PluginRegistry}

/-- What was there stays in front. -/
theorem Grows.extends (h : r.Grows r') :
    (∃ names, r'.plugins = r.plugins ++ names) ∧ ∃ rules, r'.rules = r.rules ++ rules := by
  induction h with
  | refl => exact ⟨⟨[], (List.append_nil _).symm⟩, ⟨[], (List.append_nil _).symm⟩⟩
  | tail _ hstep ih =>
      obtain ⟨⟨names, hnames⟩, rules, hrules⟩ := ih
      cases hstep with
      | addRule rule =>
          refine ⟨⟨names, hnames⟩, rules ++ [rule], ?_⟩
          rw [PluginRegistry.addRule, hrules, List.append_assoc]
      | @note name hfree =>
          refine ⟨⟨names ++ [name], ?_⟩, rules, hrules⟩
          rw [hnames, List.append_assoc]

/-- A name that is taken stays taken. -/
theorem Grows.has (h : r.Grows r') {name : String} (hname : r.has name = true) :
    r'.has name = true := by
  obtain ⟨⟨names, hnames⟩, -⟩ := h.extends
  rw [PluginRegistry.has, List.contains_iff_mem] at hname ⊢
  rw [hnames]
  exact List.mem_append_left _ hname

end PluginRegistry

/-- Installing the plugin adds to the registry. -/
def Plugin.Adds (p : Plugin) : Prop := ∀ r : PluginRegistry, r.Grows (p.install r).2

/-- The call adds to the registry. -/
def Command.Adds : Command → Prop
  | register p => p.Adds
  | addRule _ => True
  | clear => False

namespace PluginRegistry

variable {r r' : PluginRegistry}

/-- A plugin of a free name is noted before it is installed. -/
theorem register_of_free {p : Plugin} (hfree : r.has p.name = false) :
    r.register p = p.install { r with plugins := r.plugins ++ [p.name] } := by
  rw [register, hfree, if_neg Bool.false_ne_true]

/-- A taken name changes nothing. -/
theorem register_of_taken {p : Plugin} (htaken : r.has p.name = true) :
    r.register p = (.error (.pluginTaken p.name), r) := by
  rw [register, htaken, if_pos rfl]

theorem grows_register {p : Plugin} (hp : p.Adds) : r.Grows (r.register p).2 := by
  cases hname : r.has p.name with
  | true => rw [register_of_taken hname]
  | false =>
      rw [register_of_free hname]
      exact .head (.note hname) (hp _)

theorem grows_after {call : Command} (h : call.Adds) : r.Grows (r.after call) := by
  cases call with
  | register p => exact grows_register h
  | addRule rule => exact .single (.addRule r rule)
  | clear => cases h

/-- Calls that add do so one after another. -/
theorem grows_replay {calls : List Command} (h : ∀ call ∈ calls, call.Adds) :
    r.Grows (r.replay calls) := by
  induction calls generalizing r with
  | nil => exact .refl
  | cons call calls ih =>
      exact (grows_after (h call List.mem_cons_self)).trans
        (ih fun c hc => h c (List.mem_cons_of_mem _ hc))

end PluginRegistry

/-- A plugin that adds rules does no more, also if it faults then. -/
theorem Plugin.adds_ofRules (name : String) (rules : List Rule) (fault : Option Fault) :
    (Plugin.ofRules name rules fault).Adds := by
  have hfold : ∀ r : PluginRegistry, r.Grows (rules.foldl PluginRegistry.addRule r) := by
    induction rules with
    | nil => exact fun r => .refl
    | cons rule rules ih => exact fun r => .head (.addRule r rule) (ih _)
  intro r
  cases fault <;> exact hfold r

/-- A registration that faults leaves the registry as it was where the name was taken.
Otherwise the name has been noted at the end, and whatever the installation added stands
behind what was there. In either case the name is taken afterwards: until the registry is
cleared no plugin of that name is registered, and trying changes nothing. -/
theorem registration_fault {r r' : PluginRegistry} {p : Plugin} {f : Fault}
    (h : r.register p = (.error f, r')) :
    (r.has p.name = true → f = .pluginTaken p.name ∧ r' = r) ∧
    (p.Adds →
      (r.has p.name = false → (∃ names, r'.plugins = r.plugins ++ p.name :: names) ∧
        ∃ rules, r'.rules = r.rules ++ rules) ∧
      ∀ later, (∀ call ∈ later, call.Adds) → ∀ q : Plugin, q.name = p.name →
        (r'.replay later).register q = (.error (.pluginTaken p.name), r'.replay later)) := by
  have htakenOrNoted : r.has p.name = true → f = .pluginTaken p.name ∧ r' = r := by
    intro htaken
    rw [PluginRegistry.register_of_taken htaken] at h
    cases h
    exact ⟨rfl, rfl⟩
  refine ⟨htakenOrNoted, fun hp => ?_⟩
  -- where the name is free, the installation starts from where it has been noted
  have hinstalled : r.has p.name = false →
      PluginRegistry.Grows { r with plugins := r.plugins ++ [p.name] } r' := by
    intro hfree
    rw [PluginRegistry.register_of_free hfree] at h
    have hgrows := hp { r with plugins := r.plugins ++ [p.name] }
    rwa [h] at hgrows
  refine ⟨fun hfree => ?_, fun later hlater q hq => ?_⟩
  · obtain ⟨⟨names, hnames⟩, hrules⟩ := (hinstalled hfree).extends
    exact ⟨⟨names, by rw [hnames, List.append_assoc]; rfl⟩, hrules⟩
  · have htaken : r'.has p.name = true := by
      cases hname : r.has p.name with
      | true => rw [(htakenOrNoted hname).2, hname]
      | false => exact (hinstalled hname).has (by simp [PluginRegistry.has])
    rw [← hq] at htaken ⊢
    exact PluginRegistry.register_of_taken ((PluginRegistry.grows_replay hlater).has htaken)

/-- A rule that is added before the installation faults. -/
def auditRule : Rule := ⟨"audit", 0, some "not audited", .builtin .pluginError⟩

theorem registration_fault_audit :
    ∃ r', (PluginRegistry.replay {} [.addRule auditRule]).register
        (.ofRules "audit" [auditRule] (some (.raised "RuntimeError" "no disk"))) =
          (.error (.raised "RuntimeError" "no disk"), r') ∧
      r'.rules = [auditRule, auditRule] ∧
      (r'.replay [.addRule auditRule]).register (.ofRules "audit" [auditRule] none) =
        (.error (.pluginTaken "audit"), r'.replay [.addRule auditRule]) := by
  have hfault := registration_fault (r := PluginRegistry.replay {} [.addRule auditRule])
    (p := .ofRules "audit" [auditRule] (some (.raised "RuntimeError" "no disk"))) rfl
  refine ⟨_, rfl, rfl, ?_⟩
  refine (hfault.2 (Plugin.adds_ofRules _ _ _)).2 [.addRule auditRule] ?_ _ rfl
  exact fun call hcall => List.mem_singleton.mp hcall ▸ trivial

/-- Where the installation has faulted, the registry is not as it was, and the plugin as it
should have been is not registered either. -/
theorem fault_of_installation_left_behind :
    ∃ r', ({} : PluginRegistry).register
        (.ofRules "audit" [auditRule] (some (.raised "RuntimeError" "no disk"))) =
          (.error (.raised "RuntimeError" "no disk"), r') ∧
      r' ≠ {} ∧ r'.plugins = ["audit"] ∧ r'.rules = [auditRule] ∧
      r'.register (.ofRules "audit" [auditRule] none) = (.error (.pluginTaken "audit"), r') :=
  ⟨_, rfl, fun h => List.cons_ne_nil _ _ (congrArg PluginRegistry.plugins h), rfl, rfl, rfl⟩

end Conform
