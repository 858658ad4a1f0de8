/-
  Attributes: the named arguments of a call.  By custom some stand first and some last, some hold
  labels, and some hold lists whose order says nothing.  Custom goes by the name of the attribute, and
  in a few cases also by the name of what is called.

  `attributePlace` gives the place of an attribute among the others, `holdsLabels` and `holdsUnordered`
  say what its value may be taken for.  The custom is that of the printer, whose tables do not belong to
  the calculator; they stand here as far as they are known.
-/
namespace Reckoner.Source

/-- An attribute together with what is called. -/
def qualified (called name : String) : String := called ++ "." ++ name

/-- The attributes that stand before or behind the others, with their places; the place of the others is
    0. -/
def attributePlaces : List (String × Int) :=
  [("name", -99), ("archive_override.module_name", -99), ("git_override.module_name", -99),
   ("local_path_override.module_name", -99), ("multiple_version_override.module_name", -99),
   ("single_version_override.module_name", -99), ("bazel_dep.version", -98), ("module.version", -98),
   ("gwt_name", -98), ("package_name", -97), ("visible_node_name", -96), ("size", -95), ("timeout", -94),
   ("testonly", -93), ("src", -92), ("srcdir", -91), ("srcs", -90), ("out", -89), ("outs", -88),
   ("hdrs", -87), ("has_services", -86), ("include", -85), ("of", -84), ("baseline", -83), ("destdir", 1),
   ("exports", 2), ("runtime_deps", 3), ("deps", 4), ("implementation", 5), ("implements", 6),
   ("alwayslink", 7)]

/-- The place of an attribute: its own in this call, or else its own in any call. -/
def attributePlace (called name : String) : Int :=
  ((attributePlaces.lookup (qualified called name)).or (attributePlaces.lookup name)).getD 0

/-- The attributes that hold labels. -/
def labelAttributes : List String :=
  ["app_target", "appdir", "base_package", "build_deps", "cc_deps", "ccdeps", "common_deps",
   "compile_deps", "compiler", "data", "default_visibility", "dep", "deps", "deps_java",
   "dont_depend_on", "env_deps", "envscripts", "exported_deps", "exports", "externs_list", "files",
   "globals", "implementation", "implementation_deps", "implements", "includes", "interface", "jar",
   "jars", "javadeps", "lib_deps", "library", "malloc", "model", "mods", "module_deps",
   "module_target", "of", "plugins", "private_deps", "proto_deps", "proto_target", "protos",
   "resource", "resources", "runtime_deps", "scope", "shared_deps", "similar_deps", "source_jar",
   "src", "srcs", "stripped_targets", "suites", "swigdeps", "target", "target_devices",
   "target_platforms", "template", "test", "test_data", "test_deps", "test_srcs", "tests",
   "tests_deps", "tool", "tools", "visibility"]

/-- Attributes that hold labels elsewhere, but not in these calls. -/
def unlabelled : List String := ["package_group.includes"]

/-- Whether an attribute holds labels. -/
def holdsLabels (called name : String) : Bool :=
  labelAttributes.contains name && !unlabelled.contains (qualified called name)

/-- The attributes that hold lists whose order says nothing. -/
def unorderedAttributes : List String :=
  ["cc_deps", "common_deps", "compile_deps", "configs", "constraints", "data", "default_visibility",
   "deps", "deps_java", "exported_deps", "exports", "filegroups", "files", "hdrs",
   "implementation_deps", "imports", "includes", "inherits", "javadeps", "lib_deps", "module_deps",
   "outs", "packages", "plugin_modules", "private_deps", "proto_deps", "protos", "pubs", "resources",
   "runtime_deps", "shared_deps", "similar_deps", "srcs", "swigdeps", "swig_includes", "tags",
   "test_data", "test_deps", "test_srcs", "test_tags", "tests", "tools", "to_start_extensions",
   "visibility"]

/-- Attributes that hold such lists elsewhere, but not in these calls. -/
def keptInOrder : List String := ["cc_embed_data.srcs", "genrule.outs", "genrule.srcs"]

/-- Whether the order of an attribute's list says nothing. -/
def holdsUnordered (called name : String) : Bool :=
  unorderedAttributes.contains name && !keptInOrder.contains (qualified called name)

end Reckoner.Source
