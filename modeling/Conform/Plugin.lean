import Conform.Validate

/-!
# Plugins

A plugin brings rules for whole values. A registry holds the plugins by
name, in the order of registration, and the rules in the order in which
they were added.

Installing a plugin is up to the plugin: it may add any rules and may fault
at any point. Registration notes the name first and then lets the plugin
install itself, so a fault leaves behind what was done before it.
-/

namespace Conform

/-- The registered plugins and the rules, in order. -/
structure PluginRegistry where
  plugins : List String := []
  rules : List Rule := []
  deriving Repr, Inhabited

/-- A plugin: its name, and how it installs itself. -/
structure Plugin where
  name : String
  install : PluginRegistry → Except Fault Unit × PluginRegistry

namespace PluginRegistry

/-- Adds a rule. -/
def addRule (r : PluginRegistry) (rule : Rule) : PluginRegistry :=
  { r with rules := r.rules ++ [rule] }

/-- Whether a plugin of a name is registered. -/
def has (r : PluginRegistry) (name : String) : Bool := r.plugins.contains name

/-- Registers and installs a plugin, unless one of its name is registered. -/
def register (r : PluginRegistry) (p : Plugin) : Except Fault Unit × PluginRegistry :=
  if r.has p.name then (.error (.pluginTaken p.name), r)
  else p.install { r with plugins := r.plugins ++ [p.name] }

/-- Forgets the plugins and the rules. -/
def clear (_ : PluginRegistry) : PluginRegistry := {}

end PluginRegistry

/-- A plugin that adds some rules and then perhaps faults. -/
def Plugin.ofRules (name : String) (rules : List Rule) (fault : Option Fault) :
    Plugin where
  name := name
  install r :=
    let r := rules.foldl PluginRegistry.addRule r
    match fault with
    | some f => (.error f, r)
    | none => (.ok (), r)

end Conform
