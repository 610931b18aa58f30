import BinaryLayout.Text.Lines

/-!
# Fields

The code for the fields of a structure: those with a place, those that are computed, and those that
stand for another field.
-/

namespace BinaryLayout.Cpp.Fragment

/-- The class that tells whether a field may have a value. -/
def validator (name expression : String) : String :=
  Text.joinLines [
    s!"struct {name} \x7b",
    "  template <typename ValueType>",
    "  static constexpr bool ValueIsOk(ValueType emboss_reserved_local_value) \x7b",
    "    return (void)emboss_reserved_local_value,  // Silence -Wunused-parameter",
    s!"           ({expression}).ValueOrDefault();",
    "  \x7d",
    "\x7d;",
    "",
    ""]

def fieldDeclaration (visibility view name : String) : String :=
  Text.joinLines [
    s!" {visibility}:",
    s!"  typename {view} {name}() const;",
    s!"  ::emboss::support::Maybe<bool> has_{name}() const;",
    "",
    ""]

structure FieldMethods where
  name : String
  view : String
  /-- The structure around the field. -/
  parent : String
  parameterSubexpressions : String
  parametersKnown : String
  sizeAndOffsetSubexpressions : String
  size : String
  offset : String
  parameterValues : String
  alignment : String
  staticOffset : String
  condition : String

def FieldMethods.definition (f : FieldMethods) : String :=
  Text.joinLines [
    "template <class Storage>",
    s!"inline typename {f.view} Generic{f.parent}View<Storage>::{f.name}()",
    "    const \x7b",
    f.parameterSubexpressions,
    s!"  if ({f.parametersKnown} has_{f.name}().ValueOr(false)) \x7b",
    f.sizeAndOffsetSubexpressions,
    s!"    auto emboss_reserved_local_size = {f.size};",
    s!"    auto emboss_reserved_local_offset = {f.offset};",
    "    if (emboss_reserved_local_size.Known() &&",
    "        emboss_reserved_local_size.ValueOr(0) >= 0 &&",
    "        emboss_reserved_local_offset.Known() &&",
    "        emboss_reserved_local_offset.ValueOr(0) >= 0) \x7b",
    s!"        return {f.view}(",
    s!"                {f.parameterValues} backing_",
    s!"                        .template GetOffsetStorage<{f.alignment},",
    s!"                                                   {f.staticOffset}>(",
    "                                emboss_reserved_local_offset.ValueOrDefault(),",
    "                                emboss_reserved_local_size.ValueOrDefault()));",
    "    \x7d",
    "  \x7d",
    s!"  return {f.view}();",
    "\x7d",
    "",
    "template <class Storage>",
    "inline ::emboss::support::Maybe<bool>",
    s!"Generic{f.parent}View<Storage>::has_{f.name}() const \x7b",
    s!"  return {f.condition};",
    "\x7d",
    "",
    ""]

structure VirtualField where
  /-- `public` or `private`. -/
  visibility : String
  name : String
  view : String
  type : String
  /-- The structure around the field. -/
  parent : String
  /-- The function that writes the value as text. -/
  writer : String
  writeMethods : String
  readSubexpressions : String
  readValue : String
  valueIsOk : String
  condition : String

def VirtualField.constantDeclaration (f : VirtualField) : String :=
  Text.joinLines [
    s!" {f.visibility}:",
    s!"  class {f.view} final \x7b",
    "   public:",
    s!"    using ValueType = {f.type};",
    "",
    s!"    constexpr {f.view}() \x7b\x7d",
    s!"    {f.view}(const {f.view} &) = default;",
    s!"    {f.view}({f.view} &&) = default;",
    s!"    {f.view} &operator=(const {f.view} &) =",
    "        default;",
    s!"    {f.view} &operator=({f.view} &&) =",
    "        default;",
    s!"    ~{f.view}() = default;",
    "",
    s!"    static constexpr {f.type} Read();",
    s!"    static constexpr {f.type} UncheckedRead();",
    "    static constexpr bool Ok() \x7b return true; \x7d",
    "    template <class Stream>",
    "    void WriteToTextStream(Stream *emboss_reserved_local_stream,",
    "                           const ::emboss::TextOutputOptions",
    "                               &emboss_reserved_local_options) const \x7b",
    s!"      ::emboss::support::{f.writer}(",
    "          this, emboss_reserved_local_stream, emboss_reserved_local_options);",
    "    \x7d",
    "",
    "    static constexpr bool IsAggregate() \x7b return false; \x7d",
    "  \x7d;",
    "",
    s!"  static constexpr {f.view} {f.name}() \x7b",
    s!"    return {f.view}();",
    "  \x7d",
    s!"  static constexpr ::emboss::support::Maybe<bool> has_{f.name}() \x7b",
    "    return ::emboss::support::Maybe<bool>(true);",
    "  \x7d",
    "",
    ""]

def VirtualField.constantDefinition (f : VirtualField) : String :=
  Text.joinLines [
    s!"namespace {f.parent} \x7b",
    s!"inline constexpr {f.type} {f.name}() \x7b",
    s!"  return {f.readValue}.ValueOrDefault();",
    "\x7d",
    s!"\x7d  // namespace {f.parent}",
    "",
    "template <class Storage>",
    s!"inline constexpr {f.type}",
    s!"Generic{f.parent}View<Storage>::{f.view}::Read() \x7b",
    s!"  return {f.parent}::{f.name}();",
    "\x7d",
    "",
    "template <class Storage>",
    s!"inline constexpr {f.type}",
    s!"Generic{f.parent}View<",
    s!"    Storage>::{f.view}::UncheckedRead() \x7b",
    s!"  return {f.parent}::{f.name}();",
    "\x7d",
    ""]

def VirtualField.declaration (f : VirtualField) : String :=
  Text.joinLines [
    s!" {f.visibility}:",
    s!"  class {f.view} final \x7b",
    "   public:",
    s!"    using ValueType = {f.type};",
    "",
    s!"    explicit {f.view}(",
    s!"        const Generic{f.parent}View &emboss_reserved_local_view)",
    "        : view_(emboss_reserved_local_view) \x7b\x7d",
    s!"    {f.view}() = delete;",
    s!"    {f.view}(const {f.view} &) = default;",
    s!"    {f.view}({f.view} &&) = default;",
    s!"    {f.view} &operator=(const {f.view} &) =",
    "        default;",
    s!"    {f.view} &operator=({f.view} &&) =",
    "        default;",
    s!"    ~{f.view}() = default;",
    "",
    s!"    {f.type} Read() const \x7b",
    s!"      EMBOSS_CHECK(view_.has_{f.name}().ValueOr(false));",
    "      auto emboss_reserved_local_value = MaybeRead();",
    "      EMBOSS_CHECK(emboss_reserved_local_value.Known());",
    "      EMBOSS_CHECK(ValueIsOk(emboss_reserved_local_value.ValueOrDefault()));",
    "      return emboss_reserved_local_value.ValueOrDefault();",
    "    \x7d",
    s!"    {f.type} UncheckedRead() const \x7b",
    "      return MaybeRead().ValueOrDefault();",
    "    \x7d",
    "    bool Ok() const \x7b",
    "      auto emboss_reserved_local_value = MaybeRead();",
    "      return emboss_reserved_local_value.Known() &&",
    "             ValueIsOk(emboss_reserved_local_value.ValueOrDefault());",
    "    \x7d",
    "    template <class Stream>",
    "    void WriteToTextStream(Stream *emboss_reserved_local_stream,",
    "                           const ::emboss::TextOutputOptions",
    "                               &emboss_reserved_local_options) const \x7b",
    s!"      ::emboss::support::{f.writer}(",
    "          this, emboss_reserved_local_stream, emboss_reserved_local_options);",
    "    \x7d",
    "",
    "    static constexpr bool IsAggregate() \x7b return false; \x7d",
    "",
    f.writeMethods,
    "",
    "   private:",
    s!"    ::emboss::support::Maybe</**/ {f.type}> MaybeRead() const \x7b",
    f.readSubexpressions,
    s!"      return {f.readValue};",
    "    \x7d",
    "",
    "    static constexpr bool ValueIsOk(",
    s!"        {f.type} emboss_reserved_local_value) \x7b",
    "      return (void)emboss_reserved_local_value,  // Silence -Wunused-parameter",
    s!"             {f.valueIsOk}.ValueOr(false);",
    "    \x7d",
    "",
    s!"    const Generic{f.parent}View view_;",
    "  \x7d;",
    s!"  {f.view} {f.name}() const;",
    s!"  ::emboss::support::Maybe<bool> has_{f.name}() const;",
    "",
    ""]

def VirtualField.definition (f : VirtualField) : String :=
  Text.joinLines [
    "template <class Storage>",
    s!"inline typename Generic{f.parent}View<Storage>::{f.view}",
    s!"Generic{f.parent}View<Storage>::{f.name}() const \x7b",
    "  return",
    s!"      typename Generic{f.parent}View<Storage>::{f.view}(",
    "          *this);",
    "\x7d",
    "",
    "template <class Storage>",
    "inline ::emboss::support::Maybe<bool>",
    s!"Generic{f.parent}View<Storage>::has_{f.name}() const \x7b",
    s!"  return {f.condition};",
    "\x7d",
    "",
    ""]

def virtualWriteMethods (type destination transform : String) : String :=
  Text.joinLines [
    s!"    bool TryToWrite({type} emboss_reserved_local_value) \x7b",
    s!"      const auto emboss_reserved_local_maybe_new_value = {transform};",
    "      if (!CouldWriteValue(emboss_reserved_local_value)) return false;",
    s!"      return view_.{destination}.TryToWrite(",
    "          emboss_reserved_local_maybe_new_value.ValueOrDefault());",
    "    \x7d",
    s!"    void Write({type} emboss_reserved_local_value) \x7b",
    "      const bool result = TryToWrite(emboss_reserved_local_value);",
    "      (void)result;",
    "      EMBOSS_CHECK(result);",
    "    \x7d",
    s!"    void UncheckedWrite({type} emboss_reserved_local_value) \x7b",
    s!"      view_.{destination}.UncheckedWrite(({transform}).ValueOrDefault());",
    "    \x7d",
    s!"    bool CouldWriteValue({type} emboss_reserved_local_value) \x7b",
    "      if (!ValueIsOk(emboss_reserved_local_value)) return false;",
    s!"      const auto emboss_reserved_local_maybe_new_value = {transform};",
    "      if (!emboss_reserved_local_maybe_new_value.Known()) return false;",
    s!"      return view_.{destination}.CouldWriteValue(",
    "          emboss_reserved_local_maybe_new_value.ValueOrDefault());",
    "    \x7d",
    "    template <class Stream>",
    "    bool UpdateFromTextStream(Stream *emboss_reserved_local_stream) \x7b",
    "      return ::emboss::support::ReadIntegerFromTextStream(",
    "          this, emboss_reserved_local_stream);",
    "    \x7d",
    "",
    ""]

def aliasDeclaration (visibility name target : String) : String :=
  Text.joinLines [
    s!" {visibility}:",
    s!"  auto {name}() const -> decltype(this->{target}) \x7b",
    s!"   return has_{name}().ValueOrDefault() ? {target}",
    s!"                                          : decltype(this->{target})();",
    "  \x7d",
    s!"  ::emboss::support::Maybe<bool> has_{name}() const;",
    "",
    ""]

def aliasDefinition (parent name condition : String) : String :=
  Text.joinLines [
    "template <class Storage>",
    "inline ::emboss::support::Maybe<bool>",
    s!"Generic{parent}View<Storage>::has_{name}() const \x7b",
    s!"  return {condition};",
    "\x7d",
    "",
    ""]

end BinaryLayout.Cpp.Fragment
