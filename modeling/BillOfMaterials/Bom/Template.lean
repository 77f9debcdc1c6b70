import BillOfMaterials.Distribution
import BillOfMaterials.Text.Marker

/-!
# Manifest templates

A template is text with three markers: one for the display name of a distribution, one for its
short name, one for its dependencies. The markers are put in one after the other in this order.
-/
namespace BillOfMaterials.Bom

def displayMarker : String := "TomEE MicroProfile"

def shortMarker : String := "tomee-microprofile"

def dependenciesMarker : String := "<!--dependencies-->"

/-- A template with its markers. -/
structure Template where
  text : String
deriving DecidableEq, Inhabited

/-- The template for batches that bring none of their own. -/
def Template.builtin : Template := ⟨r#"<?xml version="1.0" encoding="UTF-8"?>
<!--

    Licensed to the Apache Software Foundation (ASF) under one or more
    contributor license agreements.  See the NOTICE file distributed with
    this work for additional information regarding copyright ownership.
    The ASF licenses this file to You under the Apache License, Version 2.0
    (the "License"); you may not use this file except in compliance with
    the License.  You may obtain a copy of the License at

       http://www.apache.org/licenses/LICENSE-2.0

    Unless required by applicable law or agreed to in writing, software
    distributed under the License is distributed on an "AS IS" BASIS,
    WITHOUT WARRANTIES OR CONDITIONS OF ANY KIND, either express or implied.
    See the License for the specific language governing permissions and
    limitations under the License.
-->

<!-- Generated by bomgen. Do not edit by hand. -->
<project xmlns="http://maven.apache.org/POM/4.0.0"
         xmlns:xsi="http://www.w3.org/2001/XMLSchema-instance"
         xsi:schemaLocation="http://maven.apache.org/POM/4.0.0 http://maven.apache.org/xsd/maven-4.0.0.xsd">
  <modelVersion>4.0.0</modelVersion>

  <parent>
    <groupId>org.apache.tomee.bom</groupId>
    <artifactId>boms</artifactId>
    <version>8.0.7-SNAPSHOT</version>
  </parent>

  <artifactId>tomee-microprofile</artifactId>
  <packaging>pom</packaging>
  <name>TomEE :: BOMs :: TomEE MicroProfile</name>

  <dependencies>
<!--dependencies-->  </dependencies>
</project>
"#⟩

/-- How a dependency is written. -/
inductive Style where
  /-- The dependency brings none of its own dependencies along. -/
  | pinned
  /-- The dependency only fixes a version for the modules that inherit the manifest. -/
  | managed
deriving DecidableEq, Inhabited

/-- The part of a dependency that keeps all of its own dependencies out. -/
def exclusionBlock : String :=
  "      <exclusions>\n" ++
  "        <exclusion>\n" ++
  "          <artifactId>*</artifactId>\n" ++
  "          <groupId>*</groupId>\n" ++
  "        </exclusion>\n" ++
  "      </exclusions>\n"

def dependency (style : Style) (c : Coordinate) : String :=
  "    <dependency>\n" ++
  "      <groupId>" ++ c.group ++ "</groupId>\n" ++
  "      <artifactId>" ++ c.artifact ++ "</artifactId>\n" ++
  "      <version>" ++ c.version.render ++ "</version>\n" ++
  (match style with
    | .pinned => exclusionBlock
    | .managed => "") ++
  "    </dependency>\n"

def dependencies (style : Style) (cs : List Coordinate) : String :=
  String.join (cs.map (dependency style))

/-- The manifest of a distribution. -/
def Template.fill (t : Template) (style : Style) (d : Distribution) : String :=
  let named := Text.replace (Text.replace t.text displayMarker d.name.display) shortMarker d.name.short
  Text.replace named dependenciesMarker (dependencies style d.coordinates)

end BillOfMaterials.Bom
